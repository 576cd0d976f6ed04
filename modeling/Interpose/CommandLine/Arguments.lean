/-!
# Arguments

What the words of a command line ask for, as `Cli` and `Commands` declare it. Options may stand before
or behind the file name; the value of an option follows it as the next word, behind an equals sign,
or, for a one-letter option, directly. Every option is given at most once. The words are read from
left to right, and the first one that does not fit, or asks for help, decides.
-/

namespace Interpose.CommandLine

inductive Command where
  | inspect (path : String) (json : Bool)
  | redirect (path typeName methodName : String) (output : Option String)
  | run (path typeName methodName : String) (redirect : Bool)
  | sample (output : String)
  deriving DecidableEq, Repr

inductive Action where
  | inspect
  | redirect
  | run
  | sample
  deriving DecidableEq, Repr

inductive Reading where
  | command (verbose : Bool) (command : Command)
  | help
  | misuse
  deriving DecidableEq, Repr

inductive Flag where
  | verbose
  | help
  | json
  | redirect
  | type
  | method
  | output
  deriving DecidableEq, Repr

def Action.ofWord? : String → Option Action
  | "inspect" => some .inspect
  | "rewrite" => some .redirect
  | "run" => some .run
  | "sample" => some .sample
  | _ => none

def Action.flags : Action → List Flag
  | .inspect => [.verbose, .help, .json]
  | .redirect => [.verbose, .help, .type, .method, .output]
  | .run => [.verbose, .help, .type, .method, .redirect]
  | .sample => [.verbose, .help, .output]

/-- Whether an action works on a file that a word of its own names. -/
def Action.takesPath : Action → Bool
  | .inspect | .redirect | .run => true
  | .sample => false

def Flag.takesValue : Flag → Bool
  | .type | .method | .output => true
  | _ => false

/-- Whether an option accepts a value: the name of a file is not empty. -/
def Flag.accepts (f : Flag) (value : String) : Bool := f ≠ .output || value ≠ ""

def Flag.ofName? : String → Option Flag
  | "verbose" => some .verbose
  | "help" => some .help
  | "json" => some .json
  | "rewrite" => some .redirect
  | "type" => some .type
  | "method" => some .method
  | "output" => some .output
  | _ => none

def Flag.ofLetter? : Char → Option Flag
  | 'v' => some .verbose
  | 'h' => some .help
  | 'o' => some .output
  | _ => none

def findFlag? (known : List Flag) (flag : Option Flag) : Option Flag :=
  flag.filter fun f => known.contains f

/-- The words of an action, sorted: the switches that were set, the values that options were given,
and the word that belongs to no option. -/
structure Sorted where
  switches : List Flag
  values : List (Flag × String)
  path : Option String

namespace Sorted

def start : Sorted := ⟨[], [], none⟩

inductive Halt where
  | help
  | misuse
  deriving DecidableEq, Repr

/-- Sets a switch; setting one twice is a misuse. -/
def set (s : Sorted) (f : Flag) : Except Halt Sorted :=
  if f = .help then .error .help
  else if s.switches.contains f then .error .misuse
  else .ok { s with switches := f :: s.switches }

/-- Gives an option its value; giving it two is a misuse, or one that it does not accept. -/
def give (s : Sorted) (f : Flag) (value : String) : Except Halt Sorted :=
  if (s.values.lookup f).isSome || !f.accepts value then .error .misuse
  else .ok { s with values := (f, value) :: s.values }

/-- Takes a word as the name of the file that an action works on; there is at most one. -/
def takePath (a : Action) (s : Sorted) (word : String) : Except Halt Sorted :=
  if !a.takesPath || s.path.isSome || word = "" then .error .misuse
  else .ok { s with path := some word }

/-- The flags of a row of letters: switches, then perhaps an option, whose value may follow in the
same word. The option is named by the answer if its value is still to come. -/
def setLetters (known : List Flag) : Sorted → List Char → Except Halt (Sorted × Option Flag)
  | s, [] => .ok (s, none)
  | s, c :: rest =>
    match findFlag? known (Flag.ofLetter? c) with
    | none => .error .misuse
    | some f =>
      if f.takesValue then
        match rest with
        | [] => .ok (s, some f)
        | '=' :: value => (s.give f (String.ofList value)).map (·, none)
        | value => (s.give f (String.ofList value)).map (·, none)
      else
        match s.set f with
        | .ok s => setLetters known s rest
        | .error e => .error e

/-- A long option, which may carry a value behind an equals sign. The option is named by the answer
if its value is still to come. -/
def setLong (known : List Flag) (s : Sorted) (word : List Char) :
    Except Halt (Sorted × Option Flag) :=
  let name := word.takeWhile (· != '=')
  let attached := word.dropWhile (· != '=')
  match findFlag? known (Flag.ofName? (String.ofList name)), attached with
  | none, _ => .error .misuse
  | some f, '=' :: value =>
    if f.takesValue then (s.give f (String.ofList value)).map (·, none) else .error .misuse
  | some f, _ =>
    if f.takesValue then .ok (s, some f) else (s.set f).map (·, none)

/-- Sorts the words of an action. Behind a double dash no word is an option. -/
def sort (a : Action) : Sorted → Option Flag → Bool → List String → Except Halt Sorted
  | s, none, _, [] => .ok s
  | _, some _, _, [] => .error .misuse
  | s, none, true, word :: rest =>
    match s.takePath a word with
    | .ok s => sort a s none true rest
    | .error e => .error e
  | _, some _, true, _ :: _ => .error .misuse
  | s, pending, false, word :: rest =>
    match pending, word.toList with
    | none, ['-', '-'] => sort a s none true rest
    | none, '-' :: '-' :: name =>
      match s.setLong a.flags name with
      | .ok (s, pending) => sort a s pending false rest
      | .error e => .error e
    | none, '-' :: c :: letters =>
      match s.setLetters a.flags (c :: letters) with
      | .ok (s, pending) => sort a s pending false rest
      | .error e => .error e
    | none, _ =>
      match s.takePath a word with
      | .ok s => sort a s none false rest
      | .error e => .error e
    | some _, '-' :: _ :: _ => .error .misuse
    | some f, _ =>
      match s.give f word with
      | .ok s => sort a s none false rest
      | .error e => .error e

def has (s : Sorted) (f : Flag) : Bool := s.switches.contains f

def value? (s : Sorted) (f : Flag) : Option String := s.values.lookup f

end Sorted

/-- The command that sorted words ask for, if nothing is missing. -/
def Action.command? (a : Action) (s : Sorted) : Option Command :=
  match a with
  | .inspect => do
    let path ← s.path
    return .inspect path (s.has .json)
  | .redirect => do
    let path ← s.path
    let typeName ← s.value? .type
    let methodName ← s.value? .method
    return .redirect path typeName methodName (s.value? .output)
  | .run => do
    let path ← s.path
    let typeName ← s.value? .type
    let methodName ← s.value? .method
    return .run path typeName methodName (s.has .redirect)
  | .sample => (s.value? .output).map .sample

def readAction (a : Action) (verbose : Bool) (words : List String) : Reading :=
  match Sorted.sort a .start none false words with
  | .error .help => .help
  | .error .misuse => .misuse
  | .ok s =>
    match a.command? s with
    | some c => .command (verbose || s.has .verbose) c
    | none => .misuse

def readHelp : List String → Reading
  | [] => .help
  | [word] => if (Action.ofWord? word).isSome || word = "help" then .help else .misuse
  | _ => .misuse

/-- Reads the options in front of the action, then the action. -/
def readFrom (s : Sorted) : List String → Reading
  | [] => .misuse
  | word :: rest =>
    match Action.ofWord? word with
    | some a => readAction a (s.has .verbose) rest
    | none =>
      if word = "help" then readHelp rest
      else
        let set : Except Sorted.Halt (Sorted × Option Flag) := match word.toList with
          | ['-', '-'] => .error .misuse
          | '-' :: '-' :: name => s.setLong [.verbose, .help] name
          | '-' :: c :: letters => s.setLetters [.verbose, .help] (c :: letters)
          | _ => .error .misuse
        match set with
        | .ok (s, _) => readFrom s rest
        | .error .help => .help
        | .error .misuse => .misuse

def read (words : List String) : Reading := readFrom .start words

end Interpose.CommandLine
