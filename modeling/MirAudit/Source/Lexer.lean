import MirAudit.Source.Token
import MirAudit.Text.Digits
import MirAudit.Text.WordChar

/-!
# Splitting a text into tokens

Blanks and comments separate tokens and are dropped. At every place the longest token is taken. A
slot or block number ends at a word boundary: `_1a` is a name. `Lexed.ofText` goes on up to the end
of the text or up to the first character at which no token starts.
-/

namespace MirAudit.Source

/-- A character that separates tokens. -/
def isBlank (c : Char) : Bool :=
  c == ' ' || c == '\t' || c == '\x0c' || c == '\r' || c == '\n'

/-- A character that starts a name. -/
def isNameStart (c : Char) : Bool :=
  c.isAlpha || c == '_'

/-- A character that continues a name; names are ASCII. -/
def isNameChar (c : Char) : Bool :=
  c.isAlphanum || c == '_'

/-- One or more decimal digits. -/
def isNumeral (cs : List Char) : Bool :=
  !cs.isEmpty && cs.all Digits.isDecimal

/-- Whether a word ends in front of this text. -/
def endsWord : List Char → Bool
  | [] => true
  | c :: _ => !WordChar.isWordChar c

/-- The terminal of a word that stands in front of `rest`. -/
def wordTerminal (word rest : List Char) : Terminal :=
  match word with
  | '_' :: digits => if isNumeral digits && endsWord rest then .slot else .name
  | 'b' :: 'b' :: digits =>
    if isNumeral digits && endsWord rest then .blockRef
    else keywordOrName word
  | _ => keywordOrName word
where
  /-- A reserved word, or a name. -/
  keywordOrName (word : List Char) : Terminal :=
    match Keyword.ofChars? word with
    | some keyword => .keyword keyword
    | none => .name

/-- How many characters behind an opening quote belong to the string: up to the first quote that no
backslash escapes, on one line. -/
def stringLength? : List Char → Option Nat
  | [] => none
  | '"' :: _ => some 1
  | '\\' :: c :: rest => if c = '\n' then none else (stringLength? rest).map (· + 2)
  | c :: rest => if c = '\n' then none else (stringLength? rest).map (· + 1)

/-- What stands at a place of the text, and how many characters it takes behind the first. -/
inductive Piece where
  | blank (further : Nat)
  | token (terminal : Terminal) (further : Nat)
  | stuck

/-- The punctuation mark at a place, if there is one. -/
def markPiece (cs : List Char) : Piece :=
  match Mark.startOf? cs with
  | some mark => .token (.mark mark) (mark.text.length - 1)
  | none => .stuck

/-- What starts with the character `c` in front of `tail`. -/
def Piece.startingWith (c : Char) (tail : List Char) : Piece :=
  if isBlank c then .blank 0
  else if c = '/' then
    match tail with
    | '/' :: _ => .blank (tail.takeWhile (· ≠ '\n')).length
    | _ => .stuck
  else if isNameStart c then
    let more := tail.takeWhile isNameChar
    .token (wordTerminal (c :: more) (tail.drop more.length)) more.length
  else if Digits.isDecimal c then
    .token .integer (tail.takeWhile Digits.isDecimal).length
  else if c = '"' then
    match stringLength? tail with
    | some further => .token .string further
    | none => .stuck
  else if c = '+' || c = '-' then
    let digits := tail.takeWhile Digits.isDecimal
    if digits.isEmpty then markPiece (c :: tail) else .token .integer digits.length
  else markPiece (c :: tail)

/-- How the splitting of a text ends. -/
inductive LexEnd where
  | endOfText
  /-- No token starts with this character. -/
  | badChar (c : Char) (place : Position)
deriving DecidableEq

/-- The tokens of a text and the end of its splitting. -/
structure Lexed where
  tokens : List Token
  ending : LexEnd

/-- The tokens of a text that starts at `p`. -/
def Lexed.from (p : Position) : List Char → Lexed
  | [] => ⟨[], .endOfText⟩
  | c :: tail =>
    match Piece.startingWith c tail with
    | .stuck => ⟨[], .badChar c p⟩
    | .blank further =>
      Lexed.from (p.advanceAll (c :: tail.take further)) (tail.drop further)
    | .token terminal further =>
      let text := c :: tail.take further
      let stop := p.advanceAll text
      let lexed := Lexed.from stop (tail.drop further)
      { lexed with tokens := ⟨terminal, text, p, stop⟩ :: lexed.tokens }
termination_by cs => cs.length
decreasing_by all_goals (simp only [List.length_drop, List.length_cons]; omega)

/-- The tokens of a text. -/
def Lexed.ofText (text : List Char) : Lexed :=
  Lexed.from {} text

end MirAudit.Source
