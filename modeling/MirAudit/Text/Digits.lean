/-!
# Digits

Decimal and hexadecimal numerals. Hexadecimal output has lower-case digits and a fixed width;
hexadecimal input takes either case. Decimal numerals are ASCII, only `isScriptDigit` knows other
scripts; a numeral with more digits than `numeralLimit` is not read at all.
-/

namespace MirAudit.Digits

/-- The lower-case hexadecimal digit of a number below 16. -/
def hexDigit (n : Nat) : Char :=
  Nat.digitChar (n % 16)

/-- The last `width` hexadecimal digits of `n`, leading zeros included. -/
def hex : (width : Nat) → (n : Nat) → List Char
  | 0, _ => []
  | width + 1, n => hex width (n / 16) ++ [hexDigit n]

/-- The value of a hexadecimal digit of either case. -/
def hexValue? (c : Char) : Option (Fin 16) :=
  if '0' ≤ c ∧ c ≤ '9' then some (Fin.ofNat 16 (c.toNat - '0'.toNat))
  else if 'a' ≤ c ∧ c ≤ 'f' then some (Fin.ofNat 16 (c.toNat - 'a'.toNat + 10))
  else if 'A' ≤ c ∧ c ≤ 'F' then some (Fin.ofNat 16 (c.toNat - 'A'.toNat + 10))
  else none

/-- The number below 65536 that four hexadecimal digits denote. -/
def hexUnit? (a b c d : Char) : Option (Fin 0x10000) := do
  let a ← hexValue? a
  let b ← hexValue? b
  let c ← hexValue? c
  let d ← hexValue? d
  return ⟨((a.val * 16 + b.val) * 16 + c.val) * 16 + d.val, by omega⟩

/-- A character between `0` and `9`. -/
def isDecimal (c : Char) : Bool :=
  '0' ≤ c && c ≤ '9'

/-- The zeros of the scripts with decimal digits (Unicode character database, version 14.0). The
nine other digits of a script follow its zero. -/
def scriptZeros : List Nat :=
  [0x30, 0x660, 0x6F0, 0x7C0, 0x966, 0x9E6, 0xA66, 0xAE6, 0xB66, 0xBE6, 0xC66, 0xCE6, 0xD66,
    0xDE6, 0xE50, 0xED0, 0xF20, 0x1040, 0x1090, 0x17E0, 0x1810, 0x1946, 0x19D0, 0x1A80, 0x1A90,
    0x1B50, 0x1BB0, 0x1C40, 0x1C50, 0xA620, 0xA8D0, 0xA900, 0xA9D0, 0xA9F0, 0xAA50, 0xABF0,
    0xFF10, 0x104A0, 0x10D30, 0x11066, 0x110F0, 0x11136, 0x111D0, 0x112F0, 0x11450, 0x114D0,
    0x11650, 0x116C0, 0x11730, 0x118E0, 0x11950, 0x11C50, 0x11D50, 0x11DA0, 0x16A60, 0x16AC0,
    0x16B50, 0x1D7CE, 0x1D7D8, 0x1D7E2, 0x1D7EC, 0x1D7F6, 0x1E140, 0x1E2F0, 0x1E950, 0x1FBF0]

/-- A decimal digit of any script. -/
def isScriptDigit (c : Char) : Bool :=
  scriptZeros.any fun first => first ≤ c.toNat && c.toNat < first + 10

/-! ## Numerals -/

/-- The value of a decimal digit. Other characters do not occur in a numeral. -/
def digitValue (c : Char) : Nat :=
  if isDecimal c then c.toNat - '0'.toNat else 0

/-- The number that decimal digits denote. -/
def decimalValue (digits : List Char) : Nat :=
  digits.foldl (fun n c => 10 * n + digitValue c) 0

/-- The digits of a numeral, behind its sign if it has one. -/
def unsigned : List Char → List Char
  | '-' :: digits => digits
  | '+' :: digits => digits
  | digits => digits

/-- The most digits that a numeral may have to be read as a number. -/
def numeralLimit : Nat :=
  4300

/-- A numeral that is not read because it has too many digits. -/
structure Overlong where
  digits : Nat
deriving DecidableEq

/-- The wording about a numeral that is too long. -/
def Overlong.message (o : Overlong) : String :=
  "Exceeds the limit (" ++ toString numeralLimit
    ++ " digits) for integer string conversion: value has " ++ toString o.digits
    ++ " digits; use sys.set_int_max_str_digits() to increase the limit"

/-- The number that decimal digits denote, if there are not too many. Leading zeros count. -/
def readNat (digits : List Char) : Except Overlong Nat :=
  if numeralLimit < digits.length then .error ⟨digits.length⟩ else .ok (decimalValue digits)

/-- The integer that an optional sign and decimal digits denote. The sign does not count. -/
def readInt (numeral : List Char) : Except Overlong Int := do
  let n ← readNat (unsigned numeral)
  return if numeral.head? = some '-' then -(n : Int) else n

end MirAudit.Digits
