/-!
# Templates

A template is a text with places for one argument, each written as a zero in braces, for
`Logger::write_line_with`.
-/

namespace Interpose.Text

def placeholder : List Char := ['\x7b', '0', '\x7d']

/-- Replaces every mark in a template, from left to right; marks inside the argument stay. -/
def fillChars (argument : List Char) : List Char → List Char
  | '\x7b' :: '0' :: '\x7d' :: rest => argument ++ fillChars argument rest
  | c :: rest => c :: fillChars argument rest
  | [] => []

def fill (template argument : String) : String :=
  String.ofList (fillChars argument.toList template.toList)

end Interpose.Text
