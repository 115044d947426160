import MirAudit.Text.CodePoint
import MirAudit.Text.Digits
import MirAudit.Text.Printable

/-!
# Structural descriptions

When two values disagree, both are described in full: records as `Name(field=…)`, sequences in
parentheses, texts in quotes. A text is put in single quotes unless it holds a single quote and no
double quote. The quote in use, the backslash and unprintable characters are escaped.
-/

namespace MirAudit.Describe

/-- An escape that names a code point by its number, as short as the number allows. -/
def numericEscape (n : Nat) : List Char :=
  if n < 0x100 then '\\' :: 'x' :: Digits.hex 2 n
  else if n < 0x10000 then '\\' :: 'u' :: Digits.hex 4 n
  else '\\' :: 'U' :: Digits.hex 8 n

/-- One code point inside a text quoted with `quote`. -/
def quotedPoint (quote : Char) (c : CodePoint) : List Char :=
  if c.value = quote.toNat ∨ c.value = '\\'.toNat then ['\\', Char.ofNat c.value]
  else if c.value = '\n'.toNat then ['\\', 'n']
  else if c.value = '\r'.toNat then ['\\', 'r']
  else if c.value = '\t'.toNat then ['\\', 't']
  else if Printable.isPrintable c.value then [Char.ofNat c.value]
  else numericEscape c.value

/-- The quote for a text: double if that avoids an escape that single would need. -/
def quoteFor (t : Text) : Char :=
  if t.contains (.ofChar '\'') && !t.contains (.ofChar '"') then '"' else '\''

/-- A text in quotes. -/
def text (t : Text) : String :=
  let quote := quoteFor t
  String.ofList (quote :: (t.flatMap (quotedPoint quote) ++ [quote]))

/-- A string in quotes. -/
def string (s : String) : String :=
  text (Text.ofString s)

/-- A truth value. -/
def bool (b : Bool) : String :=
  if b then "True" else "False"

/-- A natural number in decimal. -/
def nat (n : Nat) : String :=
  toString n

/-- An integer in decimal. -/
def int (n : Int) : String :=
  toString n

/-- The absence of a value. -/
def none : String :=
  "None"

/-- A value that may be absent. -/
def option {α : Type} (describe : α → String) : Option α → String
  | .none => none
  | .some a => describe a

/-- A sequence in parentheses; a single element is followed by a comma. -/
def tuple : List String → String
  | [] => "()"
  | [a] => "(" ++ a ++ ",)"
  | items => "(" ++ String.intercalate ", " items ++ ")"

/-- A record with its fields in order. -/
def record (name : String) (fields : List (String × String)) : String :=
  name ++ "(" ++ String.intercalate ", " (fields.map fun field => field.1 ++ "=" ++ field.2) ++ ")"

/-- A member of an enumeration, with its number. -/
def member (kind name : String) (number : Nat) : String :=
  "<" ++ kind ++ "." ++ name ++ ": " ++ nat number ++ ">"

end MirAudit.Describe
