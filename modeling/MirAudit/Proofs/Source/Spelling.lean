import MirAudit.Proofs.Source.Splitting
import MirAudit.Proofs.Text.Digits
import MirAudit.Proofs.Text.Literal
import MirAudit.Source.Bodies

/-!
# Tokens and their spelling

Every word, number and mark that is spelled out is read as one token wherever it stands, if no word
runs over its end. A name of a text that splits up to its end can be spelled out again:
`is_name_of_lexed`.
-/

namespace MirAudit.Source

/-! ## Characters -/

/-- Letters and digits of names are ASCII characters. -/
theorem toNat_lt_of_is_alphanum {c : Char} (h : c.isAlphanum = true) : c.toNat < 0x80 := by
  unfold Char.isAlphanum Char.isAlpha Char.isUpper Char.isLower Char.isDigit at h
  simp only [Bool.or_eq_true, Bool.and_eq_true, decide_eq_true_eq, UInt32.le_iff_toNat_le, ge_iff_le] at h
  have hnat : c.toNat = c.val.toNat := rfl
  have hupper : 'Z'.val.toNat = 90 := rfl
  have hlower : 'z'.val.toNat = 122 := rfl
  have hdigit : '9'.val.toNat = 57 := rfl
  omega

/-- A character of names is one of words. -/
theorem is_word_char_of_name_char {c : Char} (h : isNameChar c = true) :
    WordChar.isWordChar c = true := by
  have hsmall : c.toNat < 0x80 := by
    rcases Bool.or_eq_true _ _ |>.mp h with halnum | hline
    · exact toNat_lt_of_is_alphanum halnum
    · rw [beq_iff_eq.mp hline]
      decide
  rw [WordChar.isWordChar, if_pos hsmall]
  exact h

/-- What may start a name may also continue it. -/
theorem name_char_of_name_start {c : Char} (h : isNameStart c = true) : isNameChar c = true := by
  unfold isNameStart at h
  unfold isNameChar Char.isAlphanum
  grind

/-- Digits may continue a name. -/
theorem name_char_of_decimal {c : Char} (h : Digits.isDecimal c = true) : isNameChar c = true := by
  have hdigit : c.isDigit = true := by
    simp only [Digits.isDecimal, Bool.and_eq_true, decide_eq_true_eq, Char.le_def] at h
    simp only [Char.isDigit, Bool.and_eq_true, decide_eq_true_eq]
    exact h
  unfold isNameChar Char.isAlphanum
  rw [hdigit, Bool.or_true, Bool.true_or]

/-- Words do not contain blanks. -/
theorem not_word_char_of_blank {c : Char} (h : isBlank c = true) :
    WordChar.isWordChar c = false := by
  simp only [isBlank, Bool.or_eq_true, beq_iff_eq] at h
  rcases h with (((rfl | rfl) | rfl) | rfl) | rfl <;> rfl

/-- No mark starts with a character of words. -/
theorem not_word_char_of_mark {c : Char} {rest : List Char} {m : Mark}
    (h : Mark.startOf? (c :: rest) = some m) : WordChar.isWordChar c = false := by
  unfold Mark.startOf? at h
  split at h
  all_goals first
    | obtain ⟨rfl, -⟩ := List.cons.inj ‹c :: rest = _›
      rfl
    | cases h

/-! ## Pieces -/

/-- A letter or underscore, and then any characters of names. -/
def IsWord : List Char → Prop
  | [] => False
  | c :: more => isNameStart c = true ∧ ∀ d ∈ more, isNameChar d = true

instance : DecidablePred IsWord
  | [] => inferInstanceAs (Decidable False)
  | c :: more =>
    decidable_of_iff (isNameStart c = true ∧ more.all isNameChar = true)
      (and_congr_right fun _ => List.all_eq_true)

section Pieces

variable {c : Char} {cs more digits tail : List Char}

/-- Every character of a word is one of names. -/
theorem IsWord.name_chars (h : IsWord cs) : ∀ c ∈ cs, isNameChar c = true := by
  cases cs with
  | nil => exact h.elim
  | cons c more => exact List.forall_mem_cons.mpr ⟨name_char_of_name_start h.1, h.2⟩

/-- Where a word ends, its characters are taken and nothing behind them. -/
theorem take_while_of_ends {f : Char → Bool} (hf : ∀ c, f c = true → isNameChar c = true)
    (hcs : ∀ c ∈ cs, f c = true) (htail : endsWord tail = true) :
    (cs ++ tail).takeWhile f = cs := by
  rw [List.takeWhile_append_of_pos hcs]
  cases tail with
  | nil => simp
  | cons x rest =>
      have hx : f x ≠ true := fun hx => by
        have hword := is_word_char_of_name_char (hf x hx)
        simp [endsWord, hword] at htail
      simp [hx]

/-- Behind the characters of a word, only the end of the word keeps texts apart. -/
theorem Apart.ends_word (front : List Char) (h : Apart (front ++ cs) tail) (hne : cs ≠ [])
    (hcs : ∀ c ∈ cs, isNameChar c = true) : endsWord tail = true := by
  rcases h with hlast | hends
  · have hword := is_word_char_of_name_char (hcs _ (List.getLast_mem hne))
    have hfound : cs.getLast hne ∈ (front ++ cs).getLast? := by
      rw [List.getLast?_append_of_ne_nil _ hne, List.getLast?_eq_some_getLast hne]
      rfl
    rw [hlast _ hfound] at hword
    cases hword
  · exact hends

/-- The terminal of a word that ends does not depend on what follows. -/
theorem word_terminal_of_ends (word : List Char) (h : endsWord tail = true) :
    wordTerminal word tail = wordTerminal word [] := by
  unfold wordTerminal
  rw [h]
  rfl

/-- A character of names is no blank. -/
theorem not_blank_of_name_char (h : isNameChar c = true) : isBlank c ≠ true := fun hblank => by
  have hword := is_word_char_of_name_char h
  rw [not_word_char_of_blank hblank] at hword
  cases hword

/-- A character of names starts no comment. -/
theorem ne_slash_of_name_char (h : isNameChar c = true) : c ≠ '/' := by
  rintro rfl
  cases h

/-- From the start of a name on, the characters of names are one token. -/
theorem starting_with_name_start (h : isNameStart c = true) : Piece.startingWith c tail =
    .token (wordTerminal (c :: tail.takeWhile isNameChar)
      (tail.drop (tail.takeWhile isNameChar).length)) (tail.takeWhile isNameChar).length := by
  have hname := name_char_of_name_start h
  unfold Piece.startingWith
  rw [if_neg (not_blank_of_name_char hname), if_neg (ne_slash_of_name_char hname), if_pos h]

/-- A word that ends is one token. -/
theorem starting_with_word (h : IsWord (c :: more)) (htail : endsWord tail = true) :
    Piece.startingWith c (more ++ tail) = .token (wordTerminal (c :: more) []) more.length := by
  have hmore := take_while_of_ends (fun _ hc => hc) h.2 htail
  rw [starting_with_name_start h.1, hmore, List.drop_left, word_terminal_of_ends _ htail]

/-- From a digit on, the digits are one integer. -/
theorem starting_with_decimal (h : Digits.isDecimal c = true) :
    Piece.startingWith c tail = .token .integer (tail.takeWhile Digits.isDecimal).length := by
  have hname := name_char_of_decimal h
  have hstart : isNameStart c ≠ true := by
    intro hstart
    have hnine : c.val.toNat ≤ 57 := by
      simp only [Digits.isDecimal, Bool.and_eq_true, decide_eq_true_eq, Char.le_def,
        UInt32.le_iff_toNat_le] at h
      exact h.2
    unfold isNameStart Char.isAlpha Char.isUpper Char.isLower at hstart
    simp only [Bool.or_eq_true, Bool.and_eq_true, decide_eq_true_eq, UInt32.le_iff_toNat_le,
      ge_iff_le, beq_iff_eq] at hstart
    have hupper : 'A'.val.toNat = 65 := rfl
    have hlower : 'a'.val.toNat = 97 := rfl
    rcases hstart with (hletter | hletter) | rfl
    · omega
    · omega
    · exact absurd hnine (by decide)
  unfold Piece.startingWith
  rw [if_neg (not_blank_of_name_char hname), if_neg (ne_slash_of_name_char hname),
    if_neg hstart, if_pos h]

/-- A numeral that ends is one integer. -/
theorem starting_with_numeral (h : isNumeral (c :: more) = true) (htail : endsWord tail = true) :
    Piece.startingWith c (more ++ tail) = .token .integer more.length := by
  rw [isNumeral, List.all_cons, Bool.and_eq_true, Bool.and_eq_true, List.all_eq_true] at h
  rw [starting_with_decimal h.2.1,
    take_while_of_ends (fun _ => name_char_of_decimal) h.2.2 htail]

/-- A numeral behind a minus sign is one integer together with the sign. -/
theorem starting_with_minus (h : isNumeral digits = true) (htail : endsWord tail = true) :
    Piece.startingWith '-' (digits ++ tail) = .token .integer digits.length := by
  rw [isNumeral, Bool.and_eq_true, List.all_eq_true] at h
  have htake := take_while_of_ends (fun _ => name_char_of_decimal) h.2 htail
  have hsome : digits.isEmpty ≠ true := by simpa using h.1
  show (if _ then markPiece _ else _) = _
  rw [htake, if_neg hsome]

/-- From a quote on, the text up to the quote that closes it is one token. -/
theorem starting_with_quote {further : Nat} (h : stringLength? tail = some further) :
    Piece.startingWith '"' tail = .token .string further := by
  unfold Piece.startingWith
  rw [if_neg (by decide), if_neg (by decide), if_neg (by decide), if_neg (by decide), if_pos rfl,
    h]

/-- A mark is read as such in front of anything; a colon or a plus can be part of more. -/
theorem starting_with_mark {m : Mark} (hcolon : m ≠ .colon) (hplus : m ≠ .plus)
    (h : m.text.toList = c :: more) :
    Piece.startingWith c (more ++ tail) = .token (.mark m) more.length := by
  cases m <;> first | contradiction | (obtain ⟨rfl, rfl⟩ := List.cons.inj h; rfl)

/-- A piece that is a token is a word, an integer, a text in quotes or a mark. -/
theorem starting_with_eq_token {t : Terminal} {further : Nat}
    (h : Piece.startingWith c tail = .token t further) :
    (isNameStart c = true ∧ ∃ word rest, wordTerminal word rest = t) ∨ t = .integer ∨
      t = .string ∨ markPiece (c :: tail) = .token t further := by
  unfold Piece.startingWith at h
  split at h
  · cases h
  split at h
  · split at h <;> cases h
  split at h
  next hstart => exact Or.inl ⟨hstart, _, _, (Piece.token.inj h).1⟩
  split at h
  · exact Or.inr (Or.inl (Piece.token.inj h).1.symm)
  split at h
  · split at h <;> cases h
    exact Or.inr (Or.inr (Or.inl rfl))
  split at h
  · dsimp only at h
    split at h
    · exact Or.inr (Or.inr (Or.inr h))
    · exact Or.inr (Or.inl (Piece.token.inj h).1.symm)
  · exact Or.inr (Or.inr (Or.inr h))

end Pieces

/-! ## Texts that are read -/

/-- The token of a terminal and a text, without a place. -/
def spelled (t : Terminal) (cs : List Char) : Token :=
  ⟨t, cs, {}, {}⟩

namespace Reads

variable {c : Char} {as bs cs more : List Char} {ts us : List Token} {t : Terminal}

/-- What a text is read as has no places. -/
theorem map_unplaced (h : Reads cs ts) :
    ts.map Token.unplaced = ts := by
  obtain ⟨us, _, -, rfl⟩ := h {} [] (Or.inr rfl)
  rw [List.map_map]
  rfl

/-- Nothing is read as no token. -/
theorem nil : Reads [] [] :=
  fun p tail _ => ⟨[], p, .nothing p tail, rfl⟩

/-- A piece that takes the text in front of anything apart from it is a token. -/
theorem token (h : ∀ tail, Apart (c :: more) tail →
    Piece.startingWith c (more ++ tail) = .token t more.length) :
    Reads (c :: more) [spelled t (c :: more)] :=
  fun _ tail hapart => ⟨_, _, .single (h tail hapart), rfl⟩

/-- A blank is no token. -/
theorem blank (h : isBlank c = true) : Reads [c] [] := by
  intro p tail _
  have hpiece : Piece.startingWith c tail = .blank 0 := by
    unfold Piece.startingWith
    rw [if_pos h]
  exact ⟨[], _, .blank hpiece (.nothing _ _), rfl⟩

/-- Texts that are apart are read one after another. -/
theorem append (has : Reads as ts) (hbs : Reads bs us) (hapart : Apart as bs) :
    Reads (as ++ bs) (ts ++ us) := by
  intro p tail htail
  have hfront : Apart as (bs ++ tail) := by
    cases bs with
    | nil => rwa [List.append_nil] at htail
    | cons b bs => exact hapart
  have hback : Apart bs tail := by
    refine htail.imp_left fun hlast c hc => hlast c ?_
    have hne : bs ≠ [] := by
      rintro rfl
      cases hc
    rwa [List.getLast?_append_of_ne_nil _ hne]
  obtain ⟨ts', q, hts, rfl⟩ := has p (bs ++ tail) hfront
  obtain ⟨us', r, hus, rfl⟩ := hbs q tail hback
  rw [List.append_assoc]
  exact ⟨ts' ++ us', r, hts.trans hus, List.map_append⟩

/-- Blanks are no tokens. -/
theorem blanks (h : ∀ c ∈ cs, isBlank c = true) : Reads cs [] := by
  induction cs with
  | nil => exact .nil
  | cons c cs ih =>
      obtain ⟨hc, hcs⟩ := List.forall_mem_cons.mp h
      have hclosed : Apart [c] cs := by
        left
        rintro _ ⟨⟩
        exact not_word_char_of_blank hc
      exact (blank hc).append (ih hcs) hclosed

/-- A word is a token of the terminal that it has on its own. -/
theorem word (h : IsWord cs) : Reads cs [spelled (wordTerminal cs []) cs] := by
  cases cs with
  | nil => exact h.elim
  | cons c more =>
      exact token fun tail hapart => starting_with_word h
        (hapart.ends_word [] (List.cons_ne_nil _ _) h.name_chars)

/-- A keyword is read from its text. -/
theorem keyword (k : Keyword) : Reads k.text.toList [spelled (.keyword k) k.text.toList] := by
  have hword : IsWord k.text.toList := by cases k <;> decide
  have hterminal : wordTerminal k.text.toList [] = .keyword k := by cases k <;> decide
  rw [← hterminal]
  exact word hword

/-- A mark that is not the start of another token is read from its text. -/
theorem mark {m : Mark} (hcolon : m ≠ .colon) (hplus : m ≠ .plus) :
    Reads m.text.toList [spelled (.mark m) m.text.toList] := by
  cases htext : m.text.toList with
  | nil => cases m <;> cases htext
  | cons c more => exact token fun tail _ => starting_with_mark hcolon hplus htext

/-- A colon in front of a blank. -/
theorem colon : Reads [':', ' '] [spelled (.mark .colon) [':']] := by
  intro p tail _
  have hcolon : Piece.startingWith ':' (' ' :: tail) = .token (.mark .colon) 0 := rfl
  have hblank : Piece.startingWith ' ' tail = .blank 0 := rfl
  exact ⟨_, _, .token hcolon (.blank hblank (.nothing _ _)), rfl⟩

/-- A text from a quote up to the quote that closes it, whatever follows, is one token. -/
theorem quoted (h : ∀ tail, stringLength? (cs ++ tail) = some cs.length) :
    Reads ('"' :: cs) [spelled .string ('"' :: cs)] :=
  token fun tail _ => starting_with_quote (h tail)

end Reads

/-! ## Numbers -/

section Numbers

variable (n : Nat)

/-- The digits of a number are a numeral. -/
theorem is_numeral_to_digits : isNumeral (Nat.toDigits 10 n) = true := by
  rw [isNumeral, Bool.and_eq_true, List.all_eq_true]
  exact ⟨by simp [Nat.toDigits_ne_nil], fun _ => Digits.is_decimal_of_mem_to_digits⟩

/-- A natural number is written without a sign. -/
theorem toList_natural : (toString (n : Int)).toList = Nat.toDigits 10 n := by
  rw [Int.toString_eq_repr, Int.repr_eq_if, if_pos (Int.natCast_nonneg n), Int.toNat_natCast,
    Nat.toList_repr]

/-- A slot is written as an underscore and the digits of its number. -/
theorem toList_render_slot : (renderSlot n).toList = '_' :: Nat.toDigits 10 n := by
  rw [renderSlot, String.toList_append, toList_natural]
  rfl

/-- A block is written as `bb` and the digits of its number. -/
theorem toList_render_block_ref : (renderBlockRef n).toList = 'b' :: 'b' :: Nat.toDigits 10 n := by
  rw [renderBlockRef, String.toList_append, toList_natural]
  rfl

/-- The digits of a number may continue a name. -/
theorem name_chars_to_digits : ∀ c ∈ Nat.toDigits 10 n, isNameChar c = true := by
  have hnumeral := is_numeral_to_digits n
  rw [isNumeral, Bool.and_eq_true, List.all_eq_true] at hnumeral
  exact fun c hc => name_char_of_decimal (hnumeral.2 c hc)

/-- A written slot is one token, however large its number is. -/
theorem Reads.slot :
    Reads (renderSlot n).toList [spelled .slot (renderSlot n).toList] := by
  have hword : IsWord ('_' :: Nat.toDigits 10 n) := ⟨rfl, name_chars_to_digits n⟩
  have hterminal : wordTerminal ('_' :: Nat.toDigits 10 n) [] = .slot := by
    show (if isNumeral (Nat.toDigits 10 n) && true then _ else _) = _
    rw [is_numeral_to_digits]
    rfl
  rw [toList_render_slot, ← hterminal]
  exact .word hword

/-- A written block is one token, however large its number is. -/
theorem Reads.block_ref :
    Reads (renderBlockRef n).toList [spelled .blockRef (renderBlockRef n).toList] := by
  have hword : IsWord ('b' :: 'b' :: Nat.toDigits 10 n) :=
    ⟨rfl, List.forall_mem_cons.mpr ⟨rfl, name_chars_to_digits n⟩⟩
  have hterminal : wordTerminal ('b' :: 'b' :: Nat.toDigits 10 n) [] = .blockRef := by
    show (if isNumeral (Nat.toDigits 10 n) && true then _ else _) = _
    rw [is_numeral_to_digits]
    rfl
  rw [toList_render_block_ref, ← hterminal]
  exact .word hword

/-- The number of a written slot is read back if it is not too long. -/
theorem slot_number_spelled (h : Digits.Readable n) :
    slotNumber (spelled .slot (renderSlot n).toList) = .ok n := by
  rw [toList_render_slot]
  exact Outcome.map_error_eq_ok.mpr (Digits.read_nat_to_digits h)

/-- The number of a written block is read back if it is not too long. -/
theorem block_number_spelled (h : Digits.Readable n) :
    blockNumber (spelled .blockRef (renderBlockRef n).toList) = .ok n := by
  rw [toList_render_block_ref]
  exact Outcome.map_error_eq_ok.mpr (Digits.read_nat_to_digits h)

end Numbers

/-- A written integer is one token together with its sign. -/
theorem Reads.integer (value : Int) :
    Reads (toString value).toList [spelled .integer (toString value).toList] := by
  rw [Int.toString_eq_repr, Int.repr_eq_if]
  split
  · have hnumeral := is_numeral_to_digits value.toNat
    have hchars := name_chars_to_digits value.toNat
    rw [Nat.toList_repr]
    generalize Nat.toDigits 10 value.toNat = digits at hnumeral hchars
    cases digits with
    | nil => cases hnumeral
    | cons c more =>
        exact .token fun tail hapart => starting_with_numeral hnumeral
          (hapart.ends_word [] (List.cons_ne_nil _ _) hchars)
  · rw [String.toList_append, Nat.toList_repr]
    exact .token fun tail hapart => starting_with_minus (is_numeral_to_digits _)
      (hapart.ends_word ['-'] Nat.toDigits_ne_nil (name_chars_to_digits _))

/-- A written integer is read back if it is not too long. -/
theorem integer_value_spelled {value : Int} (h : Digits.Readable value.natAbs) :
    integerValue (spelled .integer (toString value).toList) = .ok value :=
  Outcome.map_error_eq_ok.mpr (Digits.read_int_to_string h)

/-! ### Numbers that were read -/

section Read

variable {tok : Token} {n : Nat}

/-- The number of a slot that was read is not too long to be written and read again. -/
theorem readable_of_slot_number (h : slotNumber tok = .ok n) : Digits.Readable n :=
  Digits.readable_of_read_nat (Outcome.map_error_eq_ok.mp h)

/-- The number of a block that was read is not too long to be written and read again. -/
theorem readable_of_block_number (h : blockNumber tok = .ok n) : Digits.Readable n :=
  Digits.readable_of_read_nat (Outcome.map_error_eq_ok.mp h)

/-- An integer that was read is not too long to be written and read again. -/
theorem readable_of_integer_value {value : Int} (h : integerValue tok = .ok value) :
    Digits.Readable value.natAbs :=
  Digits.readable_of_read_int (Outcome.map_error_eq_ok.mp h)

end Read

/-! ## Strings -/

section Strings

/-- Characters that stand for themselves are part of the string. -/
theorem string_length_plain_all {cs : List Char}
    (h : ∀ c ∈ cs, c ≠ '"' ∧ c ≠ '\\' ∧ c ≠ '\n') (rest : List Char) :
    stringLength? (cs ++ rest) = (stringLength? rest).map (· + cs.length) := by
  induction cs with
  | nil => simp
  | cons c cs ih =>
      obtain ⟨⟨hquote, hback, hline⟩, hcs⟩ := List.forall_mem_cons.mp h
      rw [List.cons_append, string_length_plain hquote hback, if_neg hline, ih hcs,
        Option.map_map]
      rfl

/-- An escaped unit of four digits is part of the string. -/
theorem string_length_unit_escape (n : Nat) (rest : List Char) :
    stringLength? (Literal.unitEscape n ++ rest) = (stringLength? rest).map (· + 6) := by
  have hdigit (k : Nat) : Digits.hexDigit k ≠ '"' ∧ Digits.hexDigit k ≠ '\\' ∧
      Digits.hexDigit k ≠ '\n' := by
    have hall : ∀ d : Fin 16, Nat.digitChar d ≠ '"' ∧ Nat.digitChar d ≠ '\\' ∧
        Nat.digitChar d ≠ '\n' := by
      decide
    exact hall (Fin.ofNat 16 k)
  have hdigits : ∀ c ∈ Digits.hex 4 n, c ≠ '"' ∧ c ≠ '\\' ∧ c ≠ '\n' := by
    simp [Digits.hex_four, hdigit]
  show stringLength? ('\\' :: 'u' :: (Digits.hex 4 n ++ rest)) = _
  rw [string_length_escape, if_neg (by decide), string_length_plain_all hdigits, Option.map_map]
  rfl

/-- The written form of a point is part of the string. -/
theorem string_length_encode_point (c : CodePoint) (rest : List Char) :
    stringLength? (Literal.encodePoint c ++ rest) =
      (stringLength? rest).map (· + (Literal.encodePoint c).length) := by
  have hwritten := Literal.written_encode_point c
  generalize Literal.encodePoint c = cs at hwritten
  cases hwritten with
  | letter _ hline _ _ =>
      show stringLength? ('\\' :: _ :: rest) = _
      rw [string_length_escape, if_neg hline]
      rfl
  | plain hquote hback hprint _ _ =>
      refine string_length_plain_all (List.forall_mem_singleton.mpr ⟨hquote, hback, ?_⟩) rest
      rintro rfl
      exact absurd hprint (by decide)
  | unit _ => exact string_length_unit_escape _ rest
  | pair _ =>
      rw [List.append_assoc, string_length_unit_escape, string_length_unit_escape, Option.map_map]
      rfl

/-- A written text ends at the quote behind it. -/
theorem string_length_encode_points (text : Text) (rest : List Char) :
    stringLength? (text.flatMap Literal.encodePoint ++ '"' :: rest) =
      some (text.flatMap Literal.encodePoint ++ ['"']).length := by
  induction text with
  | nil => rfl
  | cons c text ih =>
      rw [List.flatMap_cons, List.append_assoc, string_length_encode_point, ih, Option.map_some]
      simp only [List.length_append]
      exact congrArg some (by omega)

/-- A written text is one token, whatever it holds. -/
theorem Reads.string (text : Text) :
    Reads (Literal.encode text) [spelled .string (Literal.encode text)] :=
  .quoted fun tail => by
    rw [List.append_assoc]
    exact string_length_encode_points text tail

end Strings

/-! ## Names -/

/-- A word that is read as a name. -/
structure IsName (cs : List Char) : Prop where
  word : IsWord cs
  terminal : wordTerminal cs [] = .name

instance (cs : List Char) : Decidable (IsName cs) :=
  decidable_of_iff (IsWord cs ∧ wordTerminal cs [] = .name)
    ⟨fun h => ⟨h.1, h.2⟩, fun h => ⟨h.word, h.terminal⟩⟩

/-- A name is one token with its text. -/
theorem Reads.name {cs : List Char} (h : IsName cs) : Reads cs [spelled .name cs] := by
  rw [← h.terminal]
  exact .word h.word

section Names

variable {c : Char} {tail : List Char} {further : Nat}

/-- No token starts with a character that continues a word but not a name. -/
theorem starting_with_stuck (hword : WordChar.isWordChar c = true) (hname : isNameChar c = false) :
    Piece.startingWith c tail = .stuck := by
  have hnot {P : Prop} (h : P → WordChar.isWordChar c = false) : ¬ P := fun hP => by
    rw [h hP] at hword
    cases hword
  have hother {f : Char → Bool} (h : f c = true → isNameChar c = true) : f c ≠ true := fun hc => by
    rw [h hc] at hname
    cases hname
  have hsign : (c = '+' || c = '-') ≠ true := hnot fun h => by
    simp only [Bool.or_eq_true, decide_eq_true_eq] at h
    rcases h with rfl | rfl <;> rfl
  unfold Piece.startingWith
  rw [if_neg (hnot not_word_char_of_blank), if_neg (hnot (by rintro rfl; rfl)),
    if_neg (hother name_char_of_name_start), if_neg (hother name_char_of_decimal),
    if_neg (hnot (by rintro rfl; rfl)), if_neg hsign, markPiece]
  cases hmark : Mark.startOf? (c :: tail) with
  | none => rfl
  | some m => exact (hnot not_word_char_of_mark hmark).elim

/-- A token that is a name starts as a name does. -/
theorem name_start_of_token (h : Piece.startingWith c tail = .token .name further) :
    isNameStart c = true := by
  obtain ⟨hstart, -⟩ | ⟨⟨⟩⟩ | ⟨⟨⟩⟩ | hmark := starting_with_eq_token h
  · exact hstart
  · rw [markPiece] at hmark
    cases hstart : Mark.startOf? (c :: tail) <;> rw [hstart] at hmark <;> cases hmark

/-- Behind a name in a text that splits up to its end, the word ends. -/
theorem ends_word_of_ending {p : Position} (hending : (Lexed.from p tail).ending = .endOfText)
    (hname : ∀ x ∈ tail.head?, isNameChar x = false) : endsWord tail = true := by
  cases tail with
  | nil => rfl
  | cons x rest =>
      by_contra hword
      have hx : WordChar.isWordChar x = true := by simpa [endsWord] using hword
      rw [Lexed.from, starting_with_stuck hx (hname x rfl)] at hending
      cases hending

/-- The names of a text that splits up to its end are read as names wherever they are spelled. -/
theorem is_name_of_lexed {p : Position} {text : List Char}
    (hending : (Lexed.from p text).ending = .endOfText) :
    ∀ tok ∈ (Lexed.from p text).tokens, tok.terminal = .name → IsName tok.text := by
  induction p, text using Lexed.from.induct with
  | case1 p => simp [Lexed.from]
  | case2 p c tail hpiece => simp [Lexed.from, hpiece]
  | case3 p c tail further hpiece ih =>
      rw [Lexed.from, hpiece] at hending ⊢
      exact ih hending
  | case4 p c tail terminal further hpiece text =>
      rename_i ih
      rw [Lexed.from, hpiece] at hending ⊢
      refine List.forall_mem_cons.mpr ⟨?_, ih hending⟩
      rintro rfl
      have hstart := name_start_of_token hpiece
      rw [starting_with_name_start hstart] at hpiece
      obtain ⟨hterminal, rfl⟩ := Piece.token.inj hpiece
      have htake : tail.take (tail.takeWhile isNameChar).length = tail.takeWhile isNameChar :=
        (List.prefix_iff_eq_take.mp (List.takeWhile_prefix _)).symm
      have hrest : ∀ x ∈ (tail.drop (tail.takeWhile isNameChar).length).head?,
          isNameChar x = false := by
        have hdrop : List.drop (tail.takeWhile isNameChar).length
            (tail.takeWhile isNameChar ++ tail.dropWhile isNameChar) = _ := List.drop_left
        rw [List.takeWhile_append_dropWhile] at hdrop
        intro x hx
        have hnot := List.head?_dropWhile_not isNameChar tail
        rw [← hdrop, hx] at hnot
        exact hnot
      rw [word_terminal_of_ends _ (ends_word_of_ending hending hrest)] at hterminal
      show IsName (c :: tail.take (tail.takeWhile isNameChar).length)
      rw [htake]
      exact ⟨⟨hstart, List.all_eq_true.mp List.all_takeWhile⟩, hterminal⟩

end Names

/-! ## Marks -/

section Marks

variable {c : Char} {tail : List Char} {further : Nat} {m : Mark}

/-- A text that starts with a mark starts with its characters. -/
theorem Mark.take_of_start {cs : List Char} (h : Mark.startOf? cs = some m) :
    cs.take m.text.length = m.text.toList := by
  unfold Mark.startOf? at h
  split at h <;> cases h <;> rfl

/-- No word is a mark. -/
theorem word_terminal_ne_mark (word rest : List Char) (m : Mark) :
    wordTerminal word rest ≠ .mark m := by
  have hword (word : List Char) : wordTerminal.keywordOrName word ≠ .mark m := by
    unfold wordTerminal.keywordOrName
    cases Keyword.ofChars? word <;> exact nofun
  unfold wordTerminal
  split
  · split <;> exact nofun
  · split
    · exact nofun
    · exact hword _
  · exact hword _

/-- Only the reader of marks reads a mark. -/
theorem mark_piece_of_token (h : Piece.startingWith c tail = .token (.mark m) further) :
    markPiece (c :: tail) = .token (.mark m) further := by
  obtain ⟨-, word, rest, hword⟩ | ⟨⟨⟩⟩ | ⟨⟨⟩⟩ | hmark := starting_with_eq_token h
  · exact (word_terminal_ne_mark word rest m hword).elim
  · exact hmark

/-- What is read as a mark is its text. -/
theorem text_of_mark_piece (h : markPiece (c :: tail) = .token (.mark m) further) :
    c :: tail.take further = m.text.toList := by
  unfold markPiece at h
  cases hstart : Mark.startOf? (c :: tail) with
  | none =>
      rw [hstart] at h
      cases h
  | some found =>
      rw [hstart] at h
      obtain ⟨⟨⟩, rfl⟩ := Piece.token.inj h
      rw [← Mark.take_of_start hstart]
      have hpos : m.text.length = m.text.length - 1 + 1 := by cases m <;> rfl
      rw [hpos]
      rfl

/-- The marks of a text are spelled as marks. -/
theorem text_of_mark {p : Position} {text : List Char} :
    ∀ tok ∈ (Lexed.from p text).tokens, ∀ m, tok.terminal = .mark m → tok.text = m.text.toList := by
  induction p, text using Lexed.from.induct with
  | case1 p => simp [Lexed.from]
  | case2 p c tail hpiece => simp [Lexed.from, hpiece]
  | case3 p c tail further hpiece ih =>
      rw [Lexed.from, hpiece]
      exact ih
  | case4 p c tail terminal further hpiece text =>
      rename_i ih
      rw [Lexed.from, hpiece]
      refine List.forall_mem_cons.mpr ⟨?_, ih⟩
      rintro m rfl
      exact text_of_mark_piece (mark_piece_of_token hpiece)

end Marks

end MirAudit.Source
