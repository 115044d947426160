/-!
# Code points

String constants of a program are lists of Unicode code points. A `String` holds Unicode scalar
values only, whereas a string constant may hold a lone surrogate, which an escape can denote.
`Text.ofString` embeds the one in the other.
-/

namespace MirAudit

/-- A Unicode code point, surrogates included. -/
structure CodePoint where
  value : Nat
  value_lt : value < 0x110000
deriving DecidableEq

/-- A text that may hold lone surrogates. -/
abbrev Text := List CodePoint

namespace CodePoint

/-- Every character is a code point. -/
def ofChar (c : Char) : CodePoint :=
  ⟨c.toNat, by
    rcases c.valid with h | ⟨_, h⟩
    · exact Nat.lt_trans h (by decide)
    · exact h⟩

/-- The first half of a surrogate pair. -/
def isHighSurrogate (c : CodePoint) : Bool :=
  0xD800 ≤ c.value && c.value < 0xDC00

/-- The second half of a surrogate pair. -/
def isLowSurrogate (c : CodePoint) : Bool :=
  0xDC00 ≤ c.value && c.value < 0xE000

/-- The code point beyond the basic plane that a high and a low surrogate stand for. -/
def joinSurrogates (high low : CodePoint) : CodePoint :=
  ⟨0x10000 + (high.value - 0xD800) % 0x400 * 0x400 + (low.value - 0xDC00) % 0x400, by omega⟩

/-- The code point whose number is below 65536. -/
def ofUnit (n : Fin 0x10000) : CodePoint :=
  ⟨n.val, by omega⟩

end CodePoint

/-- The code points of a string. -/
def Text.ofString (s : String) : Text :=
  s.toList.map CodePoint.ofChar

end MirAudit
