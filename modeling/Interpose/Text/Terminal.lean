/-!
# Terminal text

A text for a terminal may carry sequences that are not shown but obeyed: they set colours, move the
cursor, name a link. Each starts with the escape character; how it goes on and where it ends depends
on its kind. `visible` is what is left of a text when its sequences and its controls are taken out.
-/

namespace Interpose.Text

/-- Where a reader of terminal text stands. -/
inductive Phase where
  | ground
  | escape
  /-- In an escape sequence of more than one character, before its last. -/
  | escapeIntermediate
  | controlSequence
  | deviceEntry
  | deviceParameters
  | deviceIntermediate
  /-- In a string that the terminator ends. -/
  | string
  /-- In an operating system command, which the bell ends as well. -/
  | command
  deriving DecidableEq, Repr

def between (low high c : Char) : Bool := low.toNat ≤ c.toNat && c.toNat ≤ high.toNat

/-- The controls that stand for blanks: tabulator, line feed, form feed, carriage return. -/
def isBlankControl (c : Char) : Bool := c = '\t' || c = '\n' || c = '\x0c' || c = '\r'

def isVisible (c : Char) : Bool := isBlankControl c || (0x20 ≤ c.toNat && c.toNat ≠ 0x7f)

/-- Whether the one-byte form of the string terminator is among the bytes of a character: strings
are searched for it byte by byte. -/
def holdsTerminator (c : Char) : Bool := (String.utf8EncodeChar c).contains 0x9c

/-- Where a reader stands behind a character that is not shown. An escape character starts a
sequence from everywhere, cancel and substitute end every sequence, and a character without a
meaning where it stands changes nothing. -/
def Phase.next (p : Phase) (c : Char) : Phase :=
  if c = '\x1b' then .escape
  else if c = '\x18' || c = '\x1a' then .ground
  else
    match p with
    | .ground => .ground
    | .escape =>
      if c = '[' then .controlSequence
      else if c = ']' then .command
      else if c = 'P' then .deviceEntry
      else if c = 'X' || c = '^' || c = '_' then .string
      else if between ' ' '/' c then .escapeIntermediate
      else if between '0' '~' c then .ground
      else .escape
    | .escapeIntermediate => if between '0' '~' c then .ground else .escapeIntermediate
    | .controlSequence => if between '@' '~' c then .ground else .controlSequence
    | .deviceEntry =>
      if between ' ' '/' c then .deviceIntermediate
      else if between '0' '?' c then .deviceParameters
      else if between '@' '~' c then .string
      else .deviceEntry
    | .deviceParameters =>
      if between ' ' '/' c then .deviceIntermediate
      else if between '<' '~' c then .string
      else .deviceParameters
    | .deviceIntermediate => if between '0' '~' c then .string else .deviceIntermediate
    | .string => if holdsTerminator c then .ground else .string
    | .command => if c = '\x07' then .ground else .command

/-- Whether a character is shown where a reader stands. Blank controls are carried out inside of
sequences too, but not inside of strings. -/
def Phase.shows (p : Phase) (c : Char) : Bool :=
  match p with
  | .ground => isVisible c
  | .escape | .escapeIntermediate | .controlSequence => isBlankControl c
  | _ => false

/-- The visible characters of a text that is read from a phase on. What follows a shown character is
shown as well, up to the next control: only then does a sequence go on that a blank broke into. A
character beyond ASCII, once shown, ends it for good. -/
def visibleFrom : Phase → Bool → List Char → List Char
  | _, _, [] => []
  | p, showing, c :: rest =>
    if showing && isVisible c || p.shows c then
      c :: visibleFrom (if c.toNat < 0x80 then p else .ground) true rest
    else visibleFrom (p.next c) false rest

def visible (s : String) : String := String.ofList (visibleFrom .ground false s.toList)

end Interpose.Text
