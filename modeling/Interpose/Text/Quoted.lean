import Interpose.Text.Printable

/-!
# Quoted text

String constants are listed between double quotes. Quotes, backslashes and the common controls have
short escapes; other characters that do not show as themselves, show nothing, or would merge with
the one before, are escaped by their code point.
-/

namespace Interpose.Text

/-- The escape of a character by its code point: `\u`, then the hexadecimal digits in braces. -/
def codePointEscape (c : Char) : List Char :=
  '\\' :: 'u' :: '\x7b' :: (Nat.toDigits 16 c.toNat ++ ['\x7d'])

/-- The halfwidth marks of voicing. They extend the grapheme before them, yet each has a place of
its own in the line. -/
def isHalfwidthVoicing (c : Char) : Bool := c = '\uff9e' || c = '\uff9f'

/-- Whether a character can be read where it stands: it shows as itself, and apart from the one
before. -/
def isReadable (c : Char) : Bool :=
  isPrintable c && !isDefaultIgnorable c && (!isGraphemeExtend c || isHalfwidthVoicing c)

def quotedChar (c : Char) : List Char :=
  if c = '\x00' then ['\\', '0']
  else if c = '\t' then ['\\', 't']
  else if c = '\r' then ['\\', 'r']
  else if c = '\n' then ['\\', 'n']
  else if c = '"' then ['\\', '"']
  else if c = '\\' then ['\\', '\\']
  else if isReadable c then [c]
  else codePointEscape c

def quoted (s : String) : String :=
  String.ofList ('"' :: (s.toList.flatMap quotedChar ++ ['"']))

end Interpose.Text
