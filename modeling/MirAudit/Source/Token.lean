/-!
# Tokens

The terminals of the source syntax, and tokens with their text and their place. Every keyword is
reserved: it is never a name.
-/

namespace MirAudit.Source

/-- A place in a text. Lines and columns count from one; a column counts code points. -/
structure Position where
  line : Nat := 1
  column : Nat := 1
deriving DecidableEq

namespace Position

/-- The position behind a character; only a newline starts a line. -/
def advance (p : Position) (c : Char) : Position :=
  if c = '\n' then ⟨p.line + 1, 1⟩ else ⟨p.line, p.column + 1⟩

/-- The position behind several characters. -/
def advanceAll (p : Position) (cs : List Char) : Position :=
  cs.foldl advance p

end Position

/-- The part of a text between two positions. -/
structure Region where
  start : Position
  stop : Position
deriving DecidableEq

/-- A value that was read from a region of the text. -/
structure Spanned (α : Type) where
  value : α
  region : Region

/-- The reserved words. -/
inductive Keyword where
  | crateKw | externKw | fnKw | structKw | traitKw | implKw | forKw | entryKw
  | letKw | mutKw | storageLiveKw | storageDeadKw | nopKw
  | castKw | asKw | aggregateKw
  | gotoKw | returnKw | unreachableKw | switchIntKw | otherwiseKw | callKw | dropKw | assertKw
  | trueKw | falseKw
  | copyKw | moveKw | constKw | fndefKw
deriving DecidableEq

namespace Keyword

/-- The spelling of a reserved word. -/
def text : Keyword → String
  | crateKw => "crate"
  | externKw => "extern"
  | fnKw => "fn"
  | structKw => "struct"
  | traitKw => "trait"
  | implKw => "impl"
  | forKw => "for"
  | entryKw => "entry"
  | letKw => "let"
  | mutKw => "mut"
  | storageLiveKw => "StorageLive"
  | storageDeadKw => "StorageDead"
  | nopKw => "nop"
  | castKw => "cast"
  | asKw => "as"
  | aggregateKw => "aggregate"
  | gotoKw => "goto"
  | returnKw => "return"
  | unreachableKw => "unreachable"
  | switchIntKw => "switchInt"
  | otherwiseKw => "otherwise"
  | callKw => "call"
  | dropKw => "drop"
  | assertKw => "assert"
  | trueKw => "true"
  | falseKw => "false"
  | copyKw => "copy"
  | moveKw => "move"
  | constKw => "const"
  | fndefKw => "fndef"

/-- All reserved words. -/
def all : List Keyword :=
  [crateKw, externKw, fnKw, structKw, traitKw, implKw, forKw, entryKw, letKw, mutKw,
    storageLiveKw, storageDeadKw, nopKw, castKw, asKw, aggregateKw, gotoKw, returnKw,
    unreachableKw, switchIntKw, otherwiseKw, callKw, dropKw, assertKw, trueKw, falseKw, copyKw,
    moveKw, constKw, fndefKw]

/-- The reserved word of a spelling. -/
def ofChars? (cs : List Char) : Option Keyword :=
  all.find? fun keyword => keyword.text.toList = cs

end Keyword

/-- The punctuation marks. -/
inductive Mark where
  | semicolon | comma | colon | pathSep | plus | assign | arrow | ampersand | bang
  | parenOpen | parenClose | braceOpen | braceClose | bracketOpen | bracketClose
  | angleOpen | angleClose
deriving DecidableEq

namespace Mark

/-- The spelling of a mark. -/
def text : Mark → String
  | semicolon => ";"
  | comma => ","
  | colon => ":"
  | pathSep => "::"
  | plus => "+"
  | assign => "="
  | arrow => "->"
  | ampersand => "&"
  | bang => "!"
  | parenOpen => "("
  | parenClose => ")"
  | braceOpen => "\x7b"
  | braceClose => "\x7d"
  | bracketOpen => "["
  | bracketClose => "]"
  | angleOpen => "<"
  | angleClose => ">"

/-- The mark that a text starts with; a mark of two characters wins. -/
def startOf? : List Char → Option Mark
  | ':' :: ':' :: _ => some pathSep
  | '-' :: '>' :: _ => some arrow
  | ';' :: _ => some semicolon
  | ',' :: _ => some comma
  | ':' :: _ => some colon
  | '+' :: _ => some plus
  | '=' :: _ => some assign
  | '&' :: _ => some ampersand
  | '!' :: _ => some bang
  | '(' :: _ => some parenOpen
  | ')' :: _ => some parenClose
  | '\x7b' :: _ => some braceOpen
  | '\x7d' :: _ => some braceClose
  | '[' :: _ => some bracketOpen
  | ']' :: _ => some bracketClose
  | '<' :: _ => some angleOpen
  | '>' :: _ => some angleClose
  | _ => none

end Mark

/-- The terminals of the grammar. -/
inductive Terminal where
  | keyword (keyword : Keyword)
  | mark (mark : Mark)
  /-- An identifier that is not reserved. -/
  | name
  /-- A numbered slot such as `_1`. -/
  | slot
  /-- A numbered block such as `bb1`. -/
  | blockRef
  /-- An integer with an optional sign. -/
  | integer
  /-- A text in double quotes. -/
  | string
deriving DecidableEq

/-- A token: its terminal, its text and its place. -/
structure Token where
  terminal : Terminal
  text : List Char
  start : Position
  stop : Position
deriving DecidableEq

namespace Token

/-- The text of the token. -/
def string (t : Token) : String :=
  String.ofList t.text

/-- The region of the token. -/
def region (t : Token) : Region :=
  ⟨t.start, t.stop⟩

end Token

/-- The region from the first to the last of some tokens. -/
def Region.ofTokens (tokens : List Token) : Region :=
  ⟨(tokens.head?.map Token.start).getD {}, (tokens.getLast?.map Token.stop).getD {}⟩

end MirAudit.Source
