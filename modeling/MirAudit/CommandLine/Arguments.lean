import MirAudit.Text.Digits

/-!
# Arguments

The command line is a command, a source file and flags, in any order behind the command. A long flag
may be shortened to any beginning that no other long flag shares; short flags may be written as one
word, with an equals sign behind the first of them or without. Behind `--` every word is plain.
Asking for help ends the reading at once, any other fault only when the words before it are in
order.
-/

namespace MirAudit.CommandLine

/-- What a flag asks for. -/
inductive Flag where
  | help
  | verbose
  | fixme
  | json
deriving DecidableEq

/-- The spellings of flags. -/
abbrev Spellings := List (String × Flag)

/-- The flags of the command line itself, and of inspections. -/
def helpFlags : Spellings :=
  [("-h", .help), ("--help", .help)]

/-- The flags of audits. -/
def auditFlags : Spellings :=
  helpFlags ++ [("-v", .verbose), ("--verbose", .verbose), ("--fixme", .fixme), ("--json", .json)]

/-- Why no command is run. -/
inductive Refusal where
  /-- Help was asked for. -/
  | help
  /-- The arguments are not understood. -/
  | usage
deriving DecidableEq

/-! ## Words -/

/-- What a word of the command line is. -/
inductive Word where
  | plain (text : String)
  /-- Every later word is plain. -/
  | separator
  /-- Known flags, in order. -/
  | flags (flags : List Flag)
  /-- A word that starts with a dash but is no known flag. -/
  | unknown
  /-- A known flag with something behind it that is no flag. -/
  | malformed
deriving DecidableEq

/-- The word of a cluster of short flags, from the flag of its first letter on and the other
letters. -/
def clusterWord (spellings : Spellings) (flag : Flag) : List Char → Word
  | [] => .flags [flag]
  | c :: rest =>
    match spellings.lookup (String.ofList ['-', c]) with
    | none => .malformed
    | some next =>
      match clusterWord spellings next rest with
      | .flags flags => .flags (flag :: flags)
      | word => word

/-- One or more digits of any script, maybe with a line end behind them. -/
def isDigits (cs : List Char) : Bool :=
  let digits := cs.takeWhile Digits.isScriptDigit
  let rest := cs.drop digits.length
  !digits.isEmpty && (rest = [] || rest = ['\n'])

/-- A negative number such as `-1` or `-.5`, which is a plain word. -/
def isNegativeNumber : List Char → Bool
  | '-' :: cs =>
    isDigits cs ||
      match cs.dropWhile Digits.isScriptDigit with
      | '.' :: fraction => isDigits fraction
      | _ => false
  | _ => false

/-- What a word is that starts with a dash but is no known flag. Numbers and texts with a blank are
plain. -/
def unknownWord (text : String) : Word :=
  if isNegativeNumber text.toList || text.toList.contains ' ' then .plain text else .unknown

/-- The word of a long flag, which may be shortened; a beginning that two flags share is refused. -/
def longWord (spellings : Spellings) (text : String) : Except Refusal Word :=
  let cs := text.toList
  let name := cs.takeWhile (· ≠ '=')
  let hasValue := name.length < cs.length
  let word (flag : Flag) : Word := if hasValue then .malformed else .flags [flag]
  match spellings.lookup (String.ofList name) with
  | some flag => .ok (word flag)
  | none =>
    match spellings.filter fun entry => name.isPrefixOf entry.1.toList with
    | [] => .ok (unknownWord text)
    | [entry] => .ok (word entry.2)
    | _ => .error .usage

/-- The word of a short flag, maybe with more flags behind it, which an equals sign may lead. -/
def shortWord (spellings : Spellings) (text : String) : Word :=
  let cs := text.toList
  match spellings.lookup (String.ofList (cs.take 2)) with
  | none => unknownWord text
  | some flag =>
    match cs.drop 2 with
    | '=' :: c :: rest => clusterWord spellings flag (c :: rest)
    | rest => clusterWord spellings flag rest

/-- What a word in front of a separator is. -/
def Word.of (spellings : Spellings) (text : String) : Except Refusal Word :=
  match text.toList with
  | '-' :: '-' :: [] => .ok .separator
  | '-' :: '-' :: _ => longWord spellings text
  | '-' :: _ :: _ => .ok (shortWord spellings text)
  | _ => .ok (.plain text)

/-- What the words of a command line are. -/
def Word.ofAll (spellings : Spellings) : List String → Except Refusal (List Word)
  | [] => .ok []
  | text :: texts => do
    match ← Word.of spellings text with
    | .separator => return .separator :: texts.map .plain
    | word => return word :: (← Word.ofAll spellings texts)

/-! ## Commands -/

/-- The arguments of a command. -/
structure Arguments where
  source : Option String := none
  verbose : Bool := false
  fixme : Bool := false
  json : Bool := false
  /-- Whether some word is not understood. -/
  surplus : Bool := false
deriving DecidableEq

namespace Arguments

/-- The arguments with a flag set; help ends the reading. -/
def set (a : Arguments) : Flag → Except Refusal Arguments
  | .help => .error .help
  | .verbose => .ok { a with verbose := true }
  | .fixme => .ok { a with fixme := true }
  | .json => .ok { a with json := true }

/-- The arguments with some flags set in order. -/
def setAll (a : Arguments) (flags : List Flag) : Except Refusal Arguments :=
  flags.foldlM set a

/-- Reads the words of a command. `behindSource` says that the word before was the source. A
separator is understood in front of the source or right behind it. -/
def read (a : Arguments) (behindSource : Bool) : List Word → Except Refusal Arguments
  | [] => .ok a
  | .plain text :: words =>
    match a.source with
    | none => read { a with source := some text } true words
    | some _ => read { a with surplus := true } false words
  | .separator :: words =>
    if a.source.isNone || behindSource then read a false words
    else read { a with surplus := true } false words
  | .flags flags :: words => do read (← a.setAll flags) false words
  | .unknown :: words => read { a with surplus := true } false words
  | .malformed :: _ => .error .usage

/-- The arguments of a command, which needs a source and understands every word. -/
def ofWords (spellings : Spellings) (texts : List String) :
    Except Refusal (String × Arguments) := do
  let a ← read {} false (← Word.ofAll spellings texts)
  match a.source with
  | none => throw .usage
  | some source => if a.surplus then throw .usage else return (source, a)

end Arguments

/-- What the command line asks for. -/
inductive Command where
  | check (source : String) (verbose fixme json : Bool)
  | inspect (source : String)
deriving DecidableEq

namespace Command

/-- The command of a name with its arguments. -/
def ofName (name : String) (texts : List String) : Except Refusal Command :=
  if name = "check" then do
    let (source, a) ← Arguments.ofWords auditFlags texts
    return .check source a.verbose a.fixme a.json
  else if name = "inspect" then do
    let (source, _) ← Arguments.ofWords helpFlags texts
    return .inspect source
  else .error .usage

/-- Reads the words up to the name of a command. Flags in front of it are refused, but only after
the command had its say. -/
def ofWords : List Word → (texts : List String) → (surplus : Bool) → Except Refusal Command
  | .plain name :: _, _ :: texts, surplus => do
    let command ← ofName name texts
    if surplus then throw .usage else return command
  | .flags flags :: words, _ :: texts, surplus => do
    let _ ← ({} : Arguments).setAll flags
    ofWords words texts surplus
  | .unknown :: words, _ :: texts, _ => ofWords words texts true
  | _, _, _ => .error .usage

/-- The command of a command line. -/
def ofArguments (texts : List String) : Except Refusal Command := do
  ofWords (← Word.ofAll helpFlags texts) texts false

end Command

end MirAudit.CommandLine
