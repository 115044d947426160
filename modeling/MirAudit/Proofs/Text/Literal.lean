import Mathlib.Data.List.Chain
import MirAudit.Text.Literal

/-!
# String literals are read back

The written form of a text is read back as this text, if the text has no high surrogate directly in
front of a low one: `decode_encode`. A text that was read has none, since reading joins them:
`join_pairs_of_decode`.
-/

namespace MirAudit

/-! ## Hexadecimal digits -/

namespace Digits

/-- A hexadecimal digit is read back. -/
theorem hex_value_hex_digit (n : Nat) : hexValue? (hexDigit n) = some (Fin.ofNat 16 n) := by
  have hall : ∀ d : Fin 16, hexValue? (Nat.digitChar d) = some d := by decide
  exact hall (Fin.ofNat 16 n)

/-- A unit is written with four digits, the highest first. -/
theorem hex_four (n : Nat) :
    hex 4 n = [hexDigit (n / 16 / 16 / 16), hexDigit (n / 16 / 16), hexDigit (n / 16), hexDigit n] :=
  rfl

/-- The four digits of a unit are read back. -/
theorem hex_unit_hex {n : Nat} (h : n < 0x10000) :
    hexUnit? (hexDigit (n / 16 / 16 / 16)) (hexDigit (n / 16 / 16)) (hexDigit (n / 16))
      (hexDigit n) = some ⟨n, h⟩ := by
  unfold hexUnit?
  simp only [hex_value_hex_digit, Option.bind_eq_bind, Option.bind_some, Fin.ofNat]
  refine congrArg some (Fin.ext ?_)
  show ((n / 16 / 16 / 16 % 16 * 16 + n / 16 / 16 % 16) * 16 + n / 16 % 16) * 16 + n % 16 = n
  omega

end Digits

namespace Literal

/-! ## Surrogate pairs -/

section Pairs

variable {c d : CodePoint} {text : Text}

/-- The range of the high surrogates. -/
theorem is_high_iff : c.isHighSurrogate = true ↔ 0xD800 ≤ c.value ∧ c.value < 0xDC00 := by
  rw [CodePoint.isHighSurrogate, Bool.and_eq_true, decide_eq_true_eq, decide_eq_true_eq]

/-- The range of the low surrogates. -/
theorem is_low_iff : c.isLowSurrogate = true ↔ 0xDC00 ≤ c.value ∧ c.value < 0xE000 := by
  rw [CodePoint.isLowSurrogate, Bool.and_eq_true, decide_eq_true_eq, decide_eq_true_eq]

/-- A pair denotes a point above the basic plane. -/
theorem le_value_join_surrogates : 0x10000 ≤ (CodePoint.joinSurrogates c d).value := by
  show 0x10000 ≤ 0x10000 + (c.value - 0xD800) % 0x400 * 0x400 + (d.value - 0xDC00) % 0x400
  omega

/-- A point in front of a text that makes no pair with it stays as it is. -/
theorem join_pairs_cons
    (h : ∀ d ∈ text.head?, (c.isHighSurrogate && d.isLowSurrogate) = false) :
    joinPairs (c :: text) = c :: joinPairs text := by
  cases text with
  | nil => simp [joinPairs]
  | cons d rest =>
      rw [joinPairs, h d rfl]
      rfl

/-- A pair in front becomes one point. -/
theorem join_pairs_pair (h : (c.isHighSurrogate && d.isLowSurrogate) = true) :
    joinPairs (c :: d :: text) = .joinSurrogates c d :: joinPairs text := by
  rw [joinPairs, if_pos h]

/-- Joining puts no low surrogate in front. -/
theorem head_join_pairs (hlow : d.isLowSurrogate = true) (h : d ∈ (joinPairs text).head?) :
    d ∈ text.head? := by
  cases text with
  | nil => cases h
  | cons c text =>
      by_cases hpair : ∃ e rest, text = e :: rest ∧ (c.isHighSurrogate && e.isLowSurrogate) = true
      · obtain ⟨e, rest, rfl, hpair⟩ := hpair
        rw [join_pairs_pair hpair] at h
        obtain rfl := Option.some.inj h
        have hbig := le_value_join_surrogates (c := c) (d := e)
        rw [is_low_iff] at hlow
        omega
      · rw [join_pairs_cons] at h
        · exact h
        · intro e he
          obtain ⟨rest, rfl⟩ := List.head?_eq_some_iff.mp he
          exact Bool.eq_false_iff.mpr fun hjoin => hpair ⟨e, rest, rfl, hjoin⟩

/-- Joining leaves no pair. -/
theorem join_pairs_join_pairs (text : Text) : joinPairs (joinPairs text) = joinPairs text := by
  induction text using joinPairs.induct with
  | case1 high low rest hpair ih =>
      rw [join_pairs_pair hpair, join_pairs_cons, ih]
      intro d _
      have hbig := le_value_join_surrogates (c := high) (d := low)
      have hnot : (CodePoint.joinSurrogates high low).isHighSurrogate = false :=
        Bool.eq_false_iff.mpr fun hhigh => by
          rw [is_high_iff] at hhigh
          omega
      rw [hnot, Bool.false_and]
  | case2 high low rest hpair ih =>
      have hsingle : joinPairs (high :: low :: rest) = high :: joinPairs (low :: rest) := by
        rw [joinPairs, if_neg hpair]
      rw [hsingle, join_pairs_cons, ih]
      intro d hd
      by_cases hlow : d.isLowSurrogate = true
      · obtain rfl := Option.some.inj (head_join_pairs hlow hd)
        exact Bool.not_eq_true _ |>.mp hpair
      · rw [Bool.not_eq_true _ |>.mp hlow, Bool.and_false]
  | case3 text hshort =>
      have hself : joinPairs text = text := by
        cases text with
        | nil => rfl
        | cons c rest =>
            cases rest with
            | nil => rfl
            | cons d rest => exact (hshort c d rest rfl).elim
      rw [hself, hself]

/-- A text without pairs starts with no pair, and what follows has none. -/
theorem join_pairs_cons_eq_self (h : joinPairs (c :: text) = c :: text) :
    (∀ d ∈ text.head?, (c.isHighSurrogate && d.isLowSurrogate) = false) ∧ joinPairs text = text := by
  have hapart : ∀ d ∈ text.head?, (c.isHighSurrogate && d.isLowSurrogate) = false := by
    intro d hd
    obtain ⟨rest, rfl⟩ := List.head?_eq_some_iff.mp hd
    refine Bool.eq_false_iff.mpr fun hpair => ?_
    rw [join_pairs_pair hpair] at h
    have hbig := le_value_join_surrogates (c := c) (d := d)
    rw [Bool.and_eq_true, is_high_iff] at hpair
    rw [(List.cons.inj h).1] at hbig
    omega
  rw [join_pairs_cons hapart] at h
  exact ⟨hapart, (List.cons.inj h).2⟩

/-- The texts without pairs are those in which no high surrogate stands right in front of a low
one. -/
theorem join_pairs_eq_self_iff : joinPairs text = text ↔
    text.IsChain fun c d => (c.isHighSurrogate && d.isLowSurrogate) = false := by
  induction text with
  | nil => exact iff_of_true rfl .nil
  | cons c text ih =>
      rw [List.isChain_cons, ← ih]
      refine ⟨join_pairs_cons_eq_self, fun ⟨hapart, hrest⟩ => ?_⟩
      rw [join_pairs_cons hapart, hrest]

/-- The first half of the pair that a point above the basic plane is written as. -/
def highOf (c : CodePoint) : CodePoint :=
  ⟨0xD800 + (c.value - 0x10000) / 0x400, by
    have := c.value_lt
    omega⟩

/-- The second half of the pair that a point above the basic plane is written as. -/
def lowOf (c : CodePoint) : CodePoint :=
  ⟨0xDC00 + (c.value - 0x10000) % 0x400, by omega⟩

/-- The first half of a pair is a high surrogate. -/
theorem is_high_high_of (c : CodePoint) : (highOf c).isHighSurrogate = true := by
  have hlt := c.value_lt
  rw [is_high_iff]
  show 0xD800 ≤ 0xD800 + (c.value - 0x10000) / 0x400 ∧
    0xD800 + (c.value - 0x10000) / 0x400 < 0xDC00
  omega

/-- The first half of a pair is no low surrogate. -/
theorem not_is_low_high_of (c : CodePoint) : (highOf c).isLowSurrogate = false := by
  have hhigh := is_high_iff.mp (is_high_high_of c)
  refine Bool.eq_false_iff.mpr fun hlow => ?_
  rw [is_low_iff] at hlow
  omega

/-- The second half of a pair is a low surrogate. -/
theorem is_low_low_of (c : CodePoint) : (lowOf c).isLowSurrogate = true := by
  rw [is_low_iff]
  show 0xDC00 ≤ 0xDC00 + (c.value - 0x10000) % 0x400 ∧
    0xDC00 + (c.value - 0x10000) % 0x400 < 0xE000
  omega

/-- A point above the basic plane is joined from the halves of its pair. -/
theorem join_high_low (h : 0x10000 ≤ c.value) : .joinSurrogates (highOf c) (lowOf c) = c := by
  obtain ⟨value, hvalue⟩ := c
  replace h : 0x10000 ≤ value := h
  have hsame : 0x10000 + (0xD800 + (value - 0x10000) / 0x400 - 0xD800) % 0x400 * 0x400
      + (0xDC00 + (value - 0x10000) % 0x400 - 0xDC00) % 0x400 = value := by
    omega
  exact CodePoint.mk.injEq .. ▸ hsame

/-- The points that the written form of a point denotes. -/
def unitsOf (c : CodePoint) : Text :=
  if c.value < 0x10000 then [c] else [highOf c, lowOf c]

/-- A text without pairs is joined from the points that its written form denotes. -/
theorem join_pairs_units (h : joinPairs text = text) :
    joinPairs (text.flatMap unitsOf) = text := by
  induction text with
  | nil => rfl
  | cons c text ih =>
      obtain ⟨hapart, hrest⟩ := join_pairs_cons_eq_self h
      rw [List.flatMap_cons]
      by_cases hsmall : c.value < 0x10000
      · rw [unitsOf, if_pos hsmall, List.singleton_append, join_pairs_cons, ih hrest]
        intro d hd
        cases text with
        | nil => cases hd
        | cons e rest =>
            rw [List.flatMap_cons, unitsOf] at hd
            split at hd
            · exact hapart d hd
            · obtain rfl := Option.some.inj hd
              rw [not_is_low_high_of, Bool.and_false]
      · rw [unitsOf, if_neg hsmall, List.cons_append, List.singleton_append, join_pairs_pair,
          ih hrest, join_high_low (Nat.le_of_not_lt hsmall)]
        rw [is_high_high_of, is_low_low_of]
        rfl

end Pairs

/-! ## Escapes -/

section Escapes

variable {c : CodePoint} {text : Text} {rest : List Char}

/-- A point is known by its value. -/
theorem eq_of_value {c d : CodePoint} (h : c.value = d.value) : c = d := by
  cases c
  cases d
  exact CodePoint.mk.injEq .. ▸ h

/-- A letter behind a backslash is one point. -/
theorem unescape_simple {e : Char} {point : CodePoint} (hunit : e ≠ 'u')
    (h : simpleEscape? e = some point) :
    unescape ('\\' :: e :: rest) = (unescape rest).map (point :: ·) := by
  rw [unescape, h]
  · cases unescape rest <;> rfl
  · exact fun _ _ _ _ _ hletter => absurd hletter hunit

/-- A unit behind a backslash is one point. -/
theorem unescape_unit {n : Nat} (h : n < 0x10000) :
    unescape (unitEscape n ++ rest) = (unescape rest).map (.ofUnit ⟨n, h⟩ :: ·) := by
  rw [unitEscape, Digits.hex_four]
  show unescape ('\\' :: 'u' :: _ :: _ :: _ :: _ :: rest) = _
  rw [unescape, Digits.hex_unit_hex h]
  cases unescape rest <;> rfl

/-- A printable character stands for itself. -/
theorem unescape_plain {e : Char} (hquote : e ≠ '"') (hback : e ≠ '\\') (hprint : 0x20 ≤ e.toNat) :
    unescape (e :: rest) = (unescape rest).map (.ofChar e :: ·) := by
  have hplain : ¬ (e = '"' ∨ e = '\\' ∨ e.toNat < 0x20) := by
    simp [hquote, hback, hprint]
  rw [unescape, if_neg hplain]
  · exact fun hletter _ => hquote hletter
  · exact fun _ _ _ _ _ hletter _ => hback hletter
  · exact fun _ _ hletter _ => hback hletter

/-- The ways in which a point is written: by a letter, as it is, or by one or two units. -/
inductive Written (c : CodePoint) : List Char → Prop where
  | letter {e : Char} : e ≠ 'u' → e ≠ '\n' → simpleEscape? e = some c → c.value < 0x10000 →
      Written c ['\\', e]
  | plain {e : Char} : e ≠ '"' → e ≠ '\\' → 0x20 ≤ e.toNat → CodePoint.ofChar e = c →
      c.value < 0x10000 → Written c [e]
  | unit : c.value < 0x10000 → Written c (unitEscape c.value)
  | pair : ¬ c.value < 0x10000 → Written c (unitEscape (highOf c).value ++ unitEscape (lowOf c).value)

/-- A point is written in one of these ways. -/
theorem written_encode_point (c : CodePoint) : Written c (encodePoint c) := by
  have hletter {e : Char} {point : CodePoint} (hunit : e ≠ 'u') (hline : e ≠ '\n')
      (hpoint : simpleEscape? e = some point) (hsmall : point.value < 0x10000)
      (h : c.value = point.value) : Written c ['\\', e] := by
    rw [eq_of_value h]
    exact .letter hunit hline hpoint hsmall
  unfold encodePoint
  split
  next h => exact hletter (by decide) (by decide) rfl (by decide) h
  next hquote =>
  split
  next h => exact hletter (by decide) (by decide) rfl (by decide) h
  next hback =>
  split
  next h => exact hletter (by decide) (by decide) rfl (by decide) h
  split
  next h => exact hletter (by decide) (by decide) rfl (by decide) h
  split
  next h => exact hletter (by decide) (by decide) rfl (by decide) h
  split
  next h => exact hletter (by decide) (by decide) rfl (by decide) h
  split
  next h => exact hletter (by decide) (by decide) rfl (by decide) h
  split
  next hprint =>
    have hvalue : (Char.ofNat c.value).toNat = c.value := by
      rw [Char.ofNat, dif_pos (Or.inl (by omega))]
      rfl
    refine .plain (fun heq => ?_) (fun heq => ?_) ?_ (eq_of_value hvalue) (by omega)
    · exact hquote (by rw [← hvalue, heq])
    · exact hback (by rw [← hvalue, heq])
    · rw [hvalue]
      exact hprint.1
  next =>
  split
  next hsmall => exact .unit hsmall
  next hlarge => exact .pair hlarge

/-- The written form of a point is read as the points that it denotes. -/
theorem unescape_encode_point (c : CodePoint) (rest : List Char) :
    unescape (encodePoint c ++ rest) = (unescape rest).map (unitsOf c ++ ·) := by
  have hwritten := written_encode_point c
  generalize encodePoint c = cs at hwritten
  cases hwritten with
  | letter hunit _ hpoint hsmall =>
      rw [unitsOf, if_pos hsmall]
      exact unescape_simple hunit hpoint
  | plain hquote hback hprint hpoint hsmall =>
      rw [unitsOf, if_pos hsmall, List.singleton_append, unescape_plain hquote hback hprint, hpoint]
      rfl
  | unit hsmall =>
      rw [unitsOf, if_pos hsmall]
      exact unescape_unit hsmall
  | pair hlarge =>
      have hhigh := is_high_iff.mp (is_high_high_of c)
      have hlow := is_low_iff.mp (is_low_low_of c)
      rw [unitsOf, if_neg hlarge, List.append_assoc, unescape_unit (by omega),
        unescape_unit (by omega), Option.map_map]
      rfl

/-- A written text is read as the points that it denotes. -/
theorem unescape_encode_points (text : Text) :
    unescape (text.flatMap encodePoint ++ ['"']) = some (text.flatMap unitsOf) := by
  induction text with
  | nil => rfl
  | cons c text ih =>
      rw [List.flatMap_cons, List.append_assoc, unescape_encode_point, ih, List.flatMap_cons]
      rfl

/-- A text without pairs is read back from its written form. -/
theorem decode_encode (h : joinPairs text = text) : decode (encode text) = some text := by
  show (unescape (text.flatMap encodePoint ++ ['"'])).map joinPairs = some text
  rw [unescape_encode_points, Option.map_some, join_pairs_units h]

/-- A text that was read has no pair. -/
theorem join_pairs_of_decode {cs : List Char} (h : decode cs = some text) :
    joinPairs text = text := by
  unfold decode at h
  split at h
  · obtain ⟨raw, -, rfl⟩ := Option.map_eq_some_iff.mp h
    exact join_pairs_join_pairs raw
  · cases h

end Escapes

end Literal

end MirAudit
