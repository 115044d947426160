import Mathlib.Algebra.Group.Nat.Defs
import Mathlib.Data.List.Basic
import MirAudit.Proofs.Outcome
import MirAudit.Text.Digits

/-!
# Numerals are read back

A numeral with too many digits is not read, and nothing else goes wrong: `read_nat_eq_error`. What was
read has few enough digits to be written and read again: `read_int_to_string` with
`readable_of_read_int`.
-/

namespace MirAudit.Digits

variable {digits numeral : List Char} {n : Nat} {value : Int}

/-- A number whose digits are not too many to be read again. -/
def Readable (n : Nat) : Prop :=
  (Nat.toDigits 10 n).length ≤ numeralLimit

/-! ## Values -/

theorem digit_value_lt (c : Char) : digitValue c < 10 := by
  unfold digitValue
  split
  next h =>
    simp only [isDecimal, Bool.and_eq_true, decide_eq_true_eq, Char.le_def,
      UInt32.le_iff_toNat_le] at h
    have hupper : c.toNat ≤ '9'.toNat := h.2
    have hnine : '9'.toNat = '0'.toNat + 9 := by decide
    omega
  next => decide

/-- Every digit multiplies the bound of a value by ten. -/
theorem fold_digits_lt {k : Nat} (h : n < 10 ^ k) :
    digits.foldl (fun n c => 10 * n + digitValue c) n < 10 ^ (k + digits.length) := by
  induction digits generalizing n k with
  | nil => exact h
  | cons c digits ih =>
      have hnext : 10 * n + digitValue c < 10 ^ (k + 1) := by
        have hdigit := digit_value_lt c
        rw [Nat.pow_succ]
        omega
      have hall := ih hnext
      rwa [Nat.add_right_comm, Nat.add_assoc] at hall

/-- The value of some digits is below the power of ten of their number. -/
theorem decimal_value_lt (digits : List Char) : decimalValue digits < 10 ^ digits.length := by
  have h : decimalValue digits < 10 ^ (0 + digits.length) := fold_digits_lt Nat.one_pos
  rwa [Nat.zero_add] at h

/-- A number is written with decimal digits. -/
theorem is_decimal_of_mem_to_digits {c : Char} (h : c ∈ Nat.toDigits 10 n) : isDecimal c = true := by
  have hdigit := Nat.isDigit_of_mem_toDigits (by decide) (by decide) h
  simp only [Char.isDigit, Bool.and_eq_true, decide_eq_true_eq] at hdigit
  simp only [isDecimal, Bool.and_eq_true, decide_eq_true_eq, Char.le_def]
  exact hdigit

/-- The digits of a number have it as their value. -/
theorem decimal_value_to_digits (n : Nat) : decimalValue (Nat.toDigits 10 n) = n := by
  have hsame : decimalValue (Nat.toDigits 10 n) = Nat.ofDigitChars 10 (Nat.toDigits 10 n) 0 :=
    List.foldl_ext _ _ 0 fun _ c hc => by rw [digitValue, if_pos (is_decimal_of_mem_to_digits hc)]
  rw [hsame, Nat.ofDigitChars_ten_toDigits]

/-! ## Natural numbers -/

/-- A numeral is read exactly if it is short enough. -/
theorem read_nat_eq_ok :
    readNat digits = .ok n ↔ digits.length ≤ numeralLimit ∧ decimalValue digits = n := by
  unfold readNat
  split
  next hlong => exact iff_of_false nofun fun h => absurd h.1 (Nat.not_le_of_lt hlong)
  next hshort => rw [Except.ok.injEq, and_iff_right (Nat.le_of_not_lt hshort)]

/-- Only a numeral that is too long is not read. -/
theorem read_nat_eq_error {o : Overlong} :
    readNat digits = .error o ↔ numeralLimit < digits.length ∧ o = ⟨digits.length⟩ := by
  unfold readNat
  split
  next hlong => rw [Except.error.injEq, and_iff_right hlong, eq_comm]
  next hshort => exact iff_of_false nofun fun h => hshort h.1

/-- What was read can be read again. -/
theorem readable_of_read_nat (h : readNat digits = .ok n) : Readable n := by
  obtain ⟨hshort, rfl⟩ := read_nat_eq_ok.mp h
  have hlt : decimalValue digits < 10 ^ numeralLimit :=
    Nat.lt_of_lt_of_le (decimal_value_lt digits) (Nat.pow_le_pow_right (by decide) hshort)
  exact (Nat.length_toDigits_le_iff (by decide) (by decide)).mpr hlt

/-- The digits of a number are read back, if they are not too many. -/
theorem read_nat_to_digits (h : Readable n) : readNat (Nat.toDigits 10 n) = .ok n :=
  read_nat_eq_ok.mpr ⟨h, decimal_value_to_digits n⟩

/-! ## Integers -/

/-- An integer is read exactly if the digits behind its sign are. -/
theorem read_int_eq_ok : readInt numeral = .ok value ↔ ∃ n, readNat (unsigned numeral) = .ok n ∧
    (if numeral.head? = some '-' then -(n : Int) else n) = value := by
  simp only [readInt, Outcome.bind_eq_ok, Outcome.pure_eq_ok]

/-- Only an integer with too many digits behind its sign is not read. -/
theorem read_int_eq_error {o : Overlong} : readInt numeral = .error o ↔
    numeralLimit < (unsigned numeral).length ∧ o = ⟨(unsigned numeral).length⟩ := by
  rw [readInt, Outcome.bind_eq_error, ← read_nat_eq_error]
  exact or_iff_left fun ⟨_, _, h⟩ => nomatch h

/-- What was read can be read again. -/
theorem readable_of_read_int (h : readInt numeral = .ok value) : Readable value.natAbs := by
  obtain ⟨n, hn, rfl⟩ := read_int_eq_ok.mp h
  have habs : (if numeral.head? = some '-' then -(n : Int) else n).natAbs = n := by
    split <;> simp
  rw [habs]
  exact readable_of_read_nat hn

/-- No digit is a sign. -/
theorem unsigned_to_digits (n : Nat) :
    unsigned (Nat.toDigits 10 n) = Nat.toDigits 10 n ∧
      (Nat.toDigits 10 n).head? ≠ some '-' := by
  have hdecimal : ∀ c ∈ Nat.toDigits 10 n, isDecimal c = true :=
    fun _ => is_decimal_of_mem_to_digits
  generalize Nat.toDigits 10 n = digits at hdecimal
  unfold unsigned
  split
  next => exact absurd (hdecimal '-' List.mem_cons_self) (by decide)
  next => exact absurd (hdecimal '+' List.mem_cons_self) (by decide)
  next hminus _ =>
    refine ⟨rfl, fun h => ?_⟩
    obtain ⟨rest, rfl⟩ := List.head?_eq_some_iff.mp h
    exact hminus rest rfl

/-- A written integer is read back. -/
theorem read_int_to_string (h : Readable value.natAbs) :
    readInt (toString value).toList = .ok value := by
  rw [read_int_eq_ok, Int.toString_eq_repr, Int.repr_eq_if]
  refine ⟨value.natAbs, ?_⟩
  split
  next hpos =>
    have hvalue : value.toNat = value.natAbs := by omega
    obtain ⟨hdigits, hhead⟩ := unsigned_to_digits value.natAbs
    rw [Nat.toList_repr, hvalue, hdigits, if_neg hhead]
    exact ⟨read_nat_to_digits h, Int.natAbs_of_nonneg hpos⟩
  next hneg =>
    have hvalue : (-value).toNat = value.natAbs := by omega
    rw [String.toList_append, Nat.toList_repr, hvalue]
    refine ⟨read_nat_to_digits h, ?_⟩
    show -(value.natAbs : Int) = value
    omega

end MirAudit.Digits
