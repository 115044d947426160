import MirAudit.Text.CodePoint
import MirAudit.Text.Digits

/-!
# String literals

The written form of a string constant follows the JSON rules, in ASCII only. `encode` escapes the
quote, the backslash, control characters and everything beyond ASCII, with a surrogate pair for a
code point above the basic plane. `decode` reads any JSON string, and joins a high surrogate
escape with a low one that follows it directly.
-/

namespace MirAudit.Literal

/-- The escape for one 16-bit unit. -/
def unitEscape (n : Nat) : List Char :=
  '\\' :: 'u' :: Digits.hex 4 n

/-- The written form of one code point. -/
def encodePoint (c : CodePoint) : List Char :=
  if c.value = '"'.toNat then ['\\', '"']
  else if c.value = '\\'.toNat then ['\\', '\\']
  else if c.value = '\n'.toNat then ['\\', 'n']
  else if c.value = '\r'.toNat then ['\\', 'r']
  else if c.value = '\t'.toNat then ['\\', 't']
  else if c.value = 8 then ['\\', 'b']
  else if c.value = 12 then ['\\', 'f']
  else if 0x20 ≤ c.value ∧ c.value < 0x7F then [Char.ofNat c.value]
  else if c.value < 0x10000 then unitEscape c.value
  else unitEscape (0xD800 + (c.value - 0x10000) / 0x400)
    ++ unitEscape (0xDC00 + (c.value - 0x10000) % 0x400)

/-- The written form of a text, quotes included. -/
def encode (text : Text) : List Char :=
  '"' :: (text.flatMap encodePoint ++ ['"'])

/-- The code point that a one-letter escape denotes. -/
def simpleEscape? (c : Char) : Option CodePoint :=
  match c with
  | '"' | '\\' | '/' => some (.ofChar c)
  | 'b' => some (.ofUnit 8)
  | 'f' => some (.ofUnit 12)
  | 'n' => some (.ofChar '\n')
  | 'r' => some (.ofChar '\r')
  | 't' => some (.ofChar '\t')
  | _ => none

/-- Reads what follows the opening quote up to a closing quote that ends the input. An unknown
escape or a raw control character has no reading. -/
def unescape : List Char → Option Text
  | ['"'] => some []
  | '\\' :: 'u' :: a :: b :: c :: d :: rest => do
    let unit ← Digits.hexUnit? a b c d
    let text ← unescape rest
    return .ofUnit unit :: text
  | '\\' :: c :: rest => do
    let point ← simpleEscape? c
    let text ← unescape rest
    return point :: text
  | c :: rest =>
    if c = '"' ∨ c = '\\' ∨ c.toNat < 0x20 then none
    else (unescape rest).map (.ofChar c :: ·)
  | [] => none

/-- Joins each high surrogate with the low surrogate right behind it, from left to right. -/
def joinPairs : Text → Text
  | high :: low :: rest =>
    if high.isHighSurrogate && low.isLowSurrogate then
      .joinSurrogates high low :: joinPairs rest
    else high :: joinPairs (low :: rest)
  | text => text

/-- The text that a string literal denotes, or nothing when it is malformed. -/
def decode : List Char → Option Text
  | '"' :: rest => (unescape rest).map joinPairs
  | _ => none

end MirAudit.Literal
