import MirAudit.Proofs.Source.Places
import MirAudit.Source.Lexer

/-!
# Splitting a text part by part

`Splitting` says that the front of a text splits into some tokens, whatever is left. One character
behind that front decides where it ends: `Splitting.replace_rest`. Where a text starts decides only
the places of its tokens: `from_unplaced`.
-/

namespace MirAudit.Source

/-! ## Positions -/

namespace Position

theorem advance_all_append (p : Position) (cs ds : List Char) :
    p.advanceAll (cs ++ ds) = (p.advanceAll cs).advanceAll ds :=
  List.foldl_append

/-- Characters lead to a later line, or else further along the line. -/
theorem advance_all_spec (p : Position) (cs : List Char) :
    p.line < (p.advanceAll cs).line ∨
      (p.advanceAll cs).line = p.line ∧ (p.advanceAll cs).column = p.column + cs.length := by
  induction cs generalizing p with
  | nil => exact Or.inr ⟨rfl, rfl⟩
  | cons c cs ih =>
      show p.line < ((p.advance c).advanceAll cs).line ∨ _
      have hrest := ih (p.advance c)
      by_cases hc : c = '\n'
      · have hline : (p.advance c).line = p.line + 1 := by rw [advance, if_pos hc]
        rw [hline] at hrest
        left
        omega
      · have hline : (p.advance c).line = p.line := by rw [advance, if_neg hc]
        have hcolumn : (p.advance c).column = p.column + 1 := by rw [advance, if_neg hc]
        rw [hline, hcolumn] at hrest
        rcases hrest with hlater | ⟨hsame, hfurther⟩
        · exact Or.inl hlater
        · refine Or.inr ⟨hsame, hfurther.trans ?_⟩
          rw [List.length_cons]
          omega

/-- Only no characters lead back. -/
theorem eq_nil_of_advance_all {p : Position} {cs : List Char} (h : p.advanceAll cs = p) :
    cs = [] := by
  have hspec := p.advance_all_spec cs
  rw [h] at hspec
  exact List.length_eq_zero_iff.mp (by omega)

/-- Two fronts of one text that lead to one place are the same. -/
theorem front_unique {p : Position} {cs ds rest left : List Char} (htext : cs ++ rest = ds ++ left)
    (h : p.advanceAll cs = p.advanceAll ds) : cs = ds ∧ rest = left := by
  rcases List.append_eq_append_iff.mp htext with ⟨more, rfl, rfl⟩ | ⟨more, rfl, rfl⟩
  · rw [advance_all_append] at h
    obtain rfl := eq_nil_of_advance_all h.symm
    simp
  · rw [advance_all_append] at h
    obtain rfl := eq_nil_of_advance_all h
    simp

end Position

/-! ## One piece -/

/-- How many characters a run takes does not depend on what follows the character that ends it. -/
theorem take_while_replace {f : Char → Bool} {cs : List Char} {x : Char} {rest : List Char}
    (h : ((cs ++ x :: rest).takeWhile f).length ≤ cs.length) (left : List Char) :
    (cs ++ x :: left).takeWhile f = (cs ++ x :: rest).takeWhile f := by
  induction cs with
  | nil =>
      cases hx : f x with
      | false => simp [hx]
      | true => simp [hx] at h
  | cons c cs ih =>
      by_cases hc : f c = true
      · simp only [List.cons_append, List.takeWhile_cons, hc, if_true, List.length_cons] at h ⊢
        rw [ih (by omega)]
      · simp [hc]

theorem string_length_escape (c : Char) (rest : List Char) :
    stringLength? ('\\' :: c :: rest) =
      if c = '\n' then none else (stringLength? rest).map (· + 2) := by
  rw [stringLength?]

theorem string_length_plain {c : Char} {rest : List Char} (hquote : c ≠ '"') (hback : c ≠ '\\') :
    stringLength? (c :: rest) = if c = '\n' then none else (stringLength? rest).map (· + 1) := by
  rw [stringLength?]
  · exact hquote
  · exact fun _ _ h _ => hback h

theorem string_length_pos {cs : List Char} {n : Nat} (h : stringLength? cs = some n) : 0 < n := by
  unfold stringLength? at h
  split at h
  · cases h
  · cases h
    exact Nat.one_pos
  all_goals
    split at h
    · cases h
    · obtain ⟨m, -, rfl⟩ := Option.map_eq_some_iff.mp h
      exact Nat.succ_pos _

/-- A backslash that escapes nothing is the last character. -/
theorem eq_nil_of_escapes_nothing {c : Char} {cs : List Char}
    (h : ∀ d rest, c = '\\' → cs = d :: rest → False) (hslash : c = '\\') : cs = [] := by
  cases cs with
  | nil => rfl
  | cons d rest => exact (h d rest hslash rfl).elim

/-- A string that ends in front of a character ends there whatever follows the character. -/
theorem string_length_replace {x : Char} {rest : List Char} (left : List Char) {cs : List Char}
    {n : Nat} (h : stringLength? (cs ++ x :: rest) = some n) (hn : n ≤ cs.length) :
    stringLength? (cs ++ x :: left) = some n := by
  induction cs using stringLength?.induct generalizing n with
  | case1 => exact absurd hn (Nat.not_le.mpr (string_length_pos h))
  | case2 cs => exact h
  | case3 cs =>
      rw [List.cons_append, List.cons_append, string_length_escape, if_pos rfl] at h
      cases h
  | case4 c cs hc ih =>
      rw [List.cons_append, List.cons_append, string_length_escape, if_neg hc] at h ⊢
      obtain ⟨m, hm, rfl⟩ := Option.map_eq_some_iff.mp h
      rw [ih hm (by simpa using hn)]
      rfl
  | case5 cs hquote hback =>
      rw [List.cons_append, string_length_plain hquote (by decide), if_pos rfl] at h
      cases h
  | case6 c cs hquote hback hc ih =>
      by_cases hslash : c = '\\'
      · -- the escaped character is not part of the front
        obtain rfl := eq_nil_of_escapes_nothing hback hslash
        rw [hslash, List.singleton_append, string_length_escape] at h
        split at h
        · cases h
        · obtain ⟨m, -, rfl⟩ := Option.map_eq_some_iff.mp h
          simp at hn
      · rw [List.cons_append, string_length_plain hquote hslash, if_neg hc] at h ⊢
        obtain ⟨m, hm, rfl⟩ := Option.map_eq_some_iff.mp h
        rw [ih hm (by simpa using hn)]
        rfl

/-- Two characters decide which mark a text starts with. -/
theorem mark_start_congr (c d : Char) (rest left : List Char) :
    Mark.startOf? (c :: d :: rest) = Mark.startOf? (c :: d :: left) := by
  by_cases hsep : c = ':' ∧ d = ':'
  · obtain ⟨rfl, rfl⟩ := hsep
    rfl
  by_cases harrow : c = '-' ∧ d = '>'
  · obtain ⟨rfl, rfl⟩ := harrow
    rfl
  unfold Mark.startOf?
  split <;> simp_all

theorem mark_start_replace {c x : Char} {cs rest left : List Char} :
    Mark.startOf? (c :: (cs ++ x :: left)) = Mark.startOf? (c :: (cs ++ x :: rest)) := by
  cases cs with
  | nil => exact mark_start_congr _ _ _ _
  | cons d cs => exact mark_start_congr _ _ _ _

theorem ends_word_replace {x : Char} {cs rest left : List Char} :
    endsWord (cs ++ x :: left) = endsWord (cs ++ x :: rest) := by
  cases cs <;> rfl

theorem word_terminal_replace {word cs rest left : List Char} {x : Char} :
    wordTerminal word (cs ++ x :: left) = wordTerminal word (cs ++ x :: rest) := by
  unfold wordTerminal
  rw [ends_word_replace]

/-- What a piece takes does not include more than `n` characters behind the first. -/
def Piece.Within (n : Nat) : Piece → Prop
  | .blank further => further ≤ n
  | .token _ further => further ≤ n
  | .stuck => False

section Replace

variable {c x : Char} {cs rest : List Char}

/-- A comment in front of a character is the same whatever follows the character. -/
theorem starting_with_slash_replace
    (h : (Piece.startingWith '/' (cs ++ x :: rest)).Within cs.length) (left : List Char) :
    Piece.startingWith '/' (cs ++ x :: left) = Piece.startingWith '/' (cs ++ x :: rest) := by
  unfold Piece.startingWith at h ⊢
  rw [if_neg (by decide), if_pos rfl] at h ⊢
  rw [if_neg (by decide), if_pos rfl]
  cases cs with
  | nil =>
      rw [List.nil_append] at h ⊢
      split at h
      next heq =>
        obtain ⟨rfl, rfl⟩ := List.cons.inj heq
        simp [Piece.Within] at h
      next => exact h.elim
  | cons d cs =>
      rw [List.cons_append] at h ⊢
      split at h
      next heq =>
        obtain ⟨rfl, -⟩ := List.cons.inj heq
        have hlength : (('/' :: cs ++ x :: rest).takeWhile (· ≠ '\n')).length ≤
            ('/' :: cs).length := h
        have hline := take_while_replace hlength left
        rw [List.cons_append, List.cons_append] at hline
        simp only [List.cons_append, hline]
      next => exact h.elim

/-- The digits in front of a character are the same whatever follows the character, if they are
known to end there or there are none. -/
theorem take_decimals_replace {piece : Piece} (left : List Char)
    (h : (if ((cs ++ x :: rest).takeWhile Digits.isDecimal).isEmpty then piece
      else .token .integer ((cs ++ x :: rest).takeWhile Digits.isDecimal).length).Within cs.length) :
    (cs ++ x :: left).takeWhile Digits.isDecimal =
      (cs ++ x :: rest).takeWhile Digits.isDecimal := by
  refine take_while_replace ?_ left
  by_cases hempty : ((cs ++ x :: rest).takeWhile Digits.isDecimal).isEmpty = true
  · simp [List.isEmpty_iff.mp hempty]
  · rw [if_neg hempty] at h
    exact h

/-- A piece in front of a character is the same whatever follows the character. -/
theorem starting_with_replace
    (h : (Piece.startingWith c (cs ++ x :: rest)).Within cs.length) (left : List Char) :
    Piece.startingWith c (cs ++ x :: left) = Piece.startingWith c (cs ++ x :: rest) := by
  have hdrop (n : Nat) (hn : n ≤ cs.length) (tail : List Char) :
      (cs ++ x :: tail).drop n = cs.drop n ++ x :: tail :=
    List.drop_append_of_le_length hn
  have hmark : markPiece (c :: (cs ++ x :: left)) = markPiece (c :: (cs ++ x :: rest)) := by
    rw [markPiece, mark_start_replace, markPiece]
  by_cases hslash : c = '/'
  · subst hslash
    exact starting_with_slash_replace h left
  unfold Piece.startingWith at h ⊢
  by_cases hblank : isBlank c = true
  · rw [if_pos hblank, if_pos hblank]
  rw [if_neg hblank, if_neg hslash] at h ⊢
  rw [if_neg hblank, if_neg hslash]
  by_cases hname : isNameStart c = true
  · rw [if_pos hname] at h ⊢
    rw [if_pos hname]
    have hmore := take_while_replace h left
    dsimp only
    rw [hmore, hdrop _ h, hdrop _ h, word_terminal_replace]
  rw [if_neg hname] at h ⊢
  rw [if_neg hname]
  by_cases hdecimal : Digits.isDecimal c = true
  · rw [if_pos hdecimal] at h ⊢
    rw [if_pos hdecimal, take_while_replace h left]
  rw [if_neg hdecimal] at h ⊢
  rw [if_neg hdecimal]
  by_cases hquote : c = '"'
  · rw [if_pos hquote] at h ⊢
    rw [if_pos hquote]
    cases hlength : stringLength? (cs ++ x :: rest) with
    | none =>
        rw [hlength] at h
        exact h.elim
    | some n =>
        rw [hlength] at h
        rw [string_length_replace left hlength h]
  rw [if_neg hquote] at h ⊢
  rw [if_neg hquote]
  by_cases hsign : (c = '+' || c = '-') = true
  · rw [if_pos hsign] at h ⊢
    rw [if_pos hsign]
    dsimp only
    rw [take_decimals_replace left h, hmark]
  · rw [if_neg hsign, if_neg hsign, hmark]

end Replace

/-! ## Piece by piece -/

/-- From `p` on, the front of a text splits into the tokens `ts`, and `rest` starts at `q`. -/
inductive Splitting : Position → List Char → List Token → Position → List Char → Prop where
  | nothing (p : Position) (text : List Char) : Splitting p text [] p text
  | blank {p q c tail rest further ts} :
      Piece.startingWith c tail = .blank further →
      Splitting (p.advanceAll (c :: tail.take further)) (tail.drop further) ts q rest →
      Splitting p (c :: tail) ts q rest
  | token {p q c tail rest terminal further ts} :
      Piece.startingWith c tail = .token terminal further →
      Splitting (p.advanceAll (c :: tail.take further)) (tail.drop further) ts q rest →
      Splitting p (c :: tail)
        (⟨terminal, c :: tail.take further, p, p.advanceAll (c :: tail.take further)⟩ :: ts) q rest

namespace Splitting

variable {p q r : Position} {text rest left : List Char} {ts us : List Token}

theorem trans (h : Splitting p text ts q rest) (hmore : Splitting q rest us r left) :
    Splitting p text (ts ++ us) r left := by
  induction h with
  | nothing => exact hmore
  | blank hpiece _ ih => exact .blank hpiece (ih hmore)
  | token hpiece _ ih => exact .token hpiece (ih hmore)

/-- A piece that takes all of the front is the one token of it. -/
theorem single {c : Char} {more tail : List Char} {t : Terminal}
    (h : Piece.startingWith c (more ++ tail) = .token t more.length) :
    Splitting p (c :: more ++ tail) [⟨t, c :: more, p, p.advanceAll (c :: more)⟩]
      (p.advanceAll (c :: more)) tail := by
  have hstep := token (p := p) h (.nothing _ _)
  rwa [List.take_left, List.drop_left] at hstep

/-- What is split off stands in front of the rest and leads to where it starts. -/
theorem consumed (h : Splitting p text ts q rest) :
    ∃ front, text = front ++ rest ∧ q = p.advanceAll front := by
  induction h with
  | nothing => exact ⟨[], rfl, rfl⟩
  | @blank p _ c tail _ further _ _ _ ih | @token p _ c tail _ _ further _ _ _ ih =>
      obtain ⟨front, htail, rfl⟩ := ih
      refine ⟨c :: tail.take further ++ front, ?_, (p.advance_all_append _ _).symm⟩
      rw [List.append_assoc, ← htail, List.cons_append, List.take_append_drop]

/-- The tokens of the whole are those of the front and those of the rest. -/
theorem from_eq (h : Splitting p text ts q rest) :
    Lexed.from p text =
      { Lexed.from q rest with tokens := ts ++ (Lexed.from q rest).tokens } := by
  induction h with
  | nothing => rfl
  | blank hpiece _ ih =>
      rw [Lexed.from, hpiece]
      exact ih
  | token hpiece _ ih =>
      rw [Lexed.from, hpiece]
      dsimp only
      rw [ih]
      rfl

/-- A piece in front of what is left takes no more than the front. -/
theorem front_cons {front tail : List Char} {c x : Char} {further : Nat}
    (h : Splitting p (tail.drop further) ts q (x :: rest))
    (htext : front ++ x :: rest = c :: tail) :
    ∃ more, front = c :: more ∧ tail = more ++ x :: rest ∧ further ≤ more.length := by
  obtain ⟨taken, hdrop, -⟩ := h.consumed
  have hlength := congrArg List.length hdrop
  rw [List.length_drop, List.length_append, List.length_cons] at hlength
  cases front with
  | nil =>
      obtain ⟨rfl, rfl⟩ := List.cons.inj htext
      omega
  | cons d more =>
      rw [List.cons_append] at htext
      obtain ⟨rfl, rfl⟩ := List.cons.inj htext
      rw [List.length_append, List.length_cons] at hlength
      exact ⟨more, rfl, rfl, by omega⟩

/-- A front ends where it does whatever follows the character behind it. -/
theorem replace_rest {front : List Char} {x : Char}
    (h : Splitting p (front ++ x :: rest) ts q (x :: rest)) (left : List Char) :
    Splitting p (front ++ x :: left) ts q (x :: left) := by
  generalize htext : front ++ x :: rest = text at h
  generalize hrest : x :: rest = stop at h
  induction h generalizing front with
  | nothing p =>
      subst hrest
      obtain rfl : front = [] := List.append_left_eq_self.mp htext
      exact .nothing _ _
  | blank hpiece hmore ih =>
      subst hrest
      obtain ⟨more, rfl, rfl, hfurther⟩ := front_cons hmore htext
      have hstep := (starting_with_replace (by rw [hpiece]; exact hfurther) left).trans hpiece
      rw [List.take_append_of_le_length hfurther, List.drop_append_of_le_length hfurther] at ih
      rw [List.cons_append]
      refine .blank hstep ?_
      rw [List.take_append_of_le_length hfurther, List.drop_append_of_le_length hfurther]
      exact ih rfl rfl
  | token hpiece hmore ih =>
      subst hrest
      obtain ⟨more, rfl, rfl, hfurther⟩ := front_cons hmore htext
      have hstep := (starting_with_replace (by rw [hpiece]; exact hfurther) left).trans hpiece
      rw [List.take_append_of_le_length hfurther, List.drop_append_of_le_length hfurther] at ih
      have htake (tail : List Char) :
          (more ++ x :: tail).take _ = more.take _ :=
        List.take_append_of_le_length hfurther
      rw [List.cons_append, htake, ← htake left]
      refine .token hstep ?_
      rw [htake, List.drop_append_of_le_length hfurther]
      exact ih rfl rfl

end Splitting

section Whole

variable {p q : Position} {text : List Char}

/-- Each token of a text starts where a front of the text ends. -/
theorem exists_splitting {front back : List Token} {tok : Token}
    (h : (Lexed.from p text).tokens = front ++ tok :: back) :
    ∃ rest, Splitting p text front tok.start (tok.text ++ rest) ∧
      Splitting tok.start (tok.text ++ rest) [tok] tok.stop rest ∧
      (Lexed.from tok.stop rest).tokens = back := by
  induction p, text using Lexed.from.induct generalizing front with
  | case1 p =>
      rw [Lexed.from] at h
      cases front <;> cases h
  | case2 p c tail hpiece =>
      rw [Lexed.from, hpiece] at h
      cases front <;> cases h
  | case3 p c tail further hpiece ih =>
      rw [Lexed.from, hpiece] at h
      obtain ⟨rest, hfront, htok, hback⟩ := ih h
      exact ⟨rest, .blank hpiece hfront, htok, hback⟩
  | case4 p c tail terminal further hpiece =>
      rename_i ih
      rw [Lexed.from, hpiece] at h
      cases front with
      | nil =>
          obtain ⟨rfl, hback⟩ := List.cons.inj h
          have htext : c :: tail.take further ++ tail.drop further = c :: tail := by
            rw [List.cons_append, List.take_append_drop]
          refine ⟨tail.drop further, ?_, ?_, hback⟩
          · rw [htext]
            exact .nothing _ _
          · rw [htext]
            exact .token hpiece (.nothing _ _)
      | cons first front =>
          obtain ⟨rfl, hrest⟩ := List.cons.inj h
          obtain ⟨rest, hfront, htok, hback⟩ := ih hrest
          exact ⟨rest, .token hpiece hfront, htok, hback⟩

/-- Where a text starts shows only in the places of its tokens. -/
theorem from_unplaced (p q : Position) (text : List Char) :
    (Lexed.from p text).tokens.map Token.unplaced = (Lexed.from q text).tokens.map Token.unplaced ∧
      ((Lexed.from p text).ending = .endOfText ↔ (Lexed.from q text).ending = .endOfText) := by
  induction p, text using Lexed.from.induct generalizing q with
  | case1 p => simp [Lexed.from]
  | case2 p c tail hpiece => simp [Lexed.from, hpiece]
  | case3 p c tail further hpiece ih =>
      rw [Lexed.from, hpiece, Lexed.from, hpiece]
      exact ih _
  | case4 p c tail terminal further hpiece text =>
      rename_i ih
      rw [Lexed.from, hpiece, Lexed.from, hpiece]
      obtain ⟨htokens, hending⟩ := ih (q.advanceAll text)
      exact ⟨congrArg (_ :: ·) htokens, hending⟩

end Whole

/-! ## A part of a text in another text's place -/

/-- No word runs over the boundary between two texts. -/
def Apart (cs tail : List Char) : Prop :=
  (∀ c ∈ cs.getLast?, WordChar.isWordChar c = false) ∨ endsWord tail = true

/-- Wherever it stands and whatever follows it, the text splits into the tokens, up to places. -/
def Reads (cs : List Char) (ts : List Token) : Prop :=
  ∀ p tail, Apart cs tail →
    ∃ us q, Splitting p (cs ++ tail) us q tail ∧ us.map Token.unplaced = ts

/-- `old` is the part of the text that takes the region, between `pre` and `post`. -/
structure Occupies (text : List Char) (region : Region) (pre old post : List Char) : Prop where
  text_eq : text = pre ++ (old ++ post)
  start : Position.advanceAll {} pre = region.start
  stop : Position.advanceAll {} (pre ++ old) = region.stop

section Parts

variable {text pre old post : List Char} {before inner after : List Token} {first last : Token}

/-- Only one part of a text takes a region. -/
theorem Occupies.unique {region : Region} {pre' old' post' : List Char}
    (h : Occupies text region pre old post) (h' : Occupies text region pre' old' post') :
    pre = pre' ∧ old = old' ∧ post = post' := by
  obtain ⟨rfl, hrest⟩ :=
    Position.front_unique (h.text_eq.symm.trans h'.text_eq) (h.start.trans h'.start.symm)
  have htext : (pre ++ old) ++ post = (pre ++ old') ++ post' := by
    rw [List.append_assoc, List.append_assoc, hrest]
  obtain ⟨hold, hpost⟩ := Position.front_unique htext (h.stop.trans h'.stop.symm)
  exact ⟨rfl, List.append_cancel_left hold, hpost⟩

/-- Where the tokens from `first` to `last` stand, and how the text splits around them. -/
theorem exists_part
    (h : (Lexed.ofText text).tokens = before ++ (first :: inner ++ [last] ++ after)) :
    ∃ pre old post, Occupies text ⟨first.start, last.stop⟩ pre old post ∧
      (∃ rest, old ++ post = first.text ++ rest) ∧
      Splitting {} (pre ++ (old ++ post)) before first.start (old ++ post) ∧
      Splitting first.start (old ++ post) (first :: inner ++ [last]) last.stop post ∧
      (Lexed.from last.stop post).tokens = after := by
  obtain ⟨rest, hfront, -, -⟩ := exists_splitting h
  obtain ⟨pre, hpre, hstart⟩ := hfront.consumed
  have hbody : (Lexed.from first.start (first.text ++ rest)).tokens =
      (first :: inner) ++ last :: after := by
    have htokens := congrArg Lexed.tokens hfront.from_eq
    rw [← Lexed.ofText, h] at htokens
    rw [← List.append_cancel_left htokens, List.append_assoc, List.singleton_append]
  obtain ⟨post, hinner, hlast, hafter⟩ := exists_splitting hbody
  have hpart := hinner.trans hlast
  obtain ⟨old, hold, hstop⟩ := hpart.consumed
  rw [hold] at hpre hfront hpart
  subst hpre
  refine ⟨pre, old, post, ⟨rfl, hstart.symm, ?_⟩, ⟨rest, hold.symm⟩, hfront, hpart, hafter⟩
  rw [Position.advance_all_append, ← hstart, ← hstop]

/-- The tokens from `first` to `last` take a part of the text. -/
theorem exists_occupies
    (h : (Lexed.ofText text).tokens = before ++ (first :: inner ++ [last] ++ after)) :
    ∃ pre old post, Occupies text ⟨first.start, last.stop⟩ pre old post := by
  obtain ⟨pre, old, post, hocc, -⟩ := exists_part h
  exact ⟨pre, old, post, hocc⟩

/-- A text in the place of a part that starts with the same character: the tokens around it stay. -/
theorem replace_part (hending : (Lexed.ofText text).ending = .endOfText)
    (h : (Lexed.ofText text).tokens = before ++ (first :: inner ++ [last] ++ after))
    (hocc : Occupies text ⟨first.start, last.stop⟩ pre old post) {x : Char} {more new : List Char}
    (hfirst : first.text = x :: more) {ts : List Token} (hnew : Reads (x :: new) ts)
    (hapart : Apart (x :: new) post) :
    (Lexed.ofText (pre ++ (x :: new ++ post))).ending = .endOfText ∧
      (Lexed.ofText (pre ++ (x :: new ++ post))).tokens.map Token.unplaced =
        before.map Token.unplaced ++ (ts ++ after.map Token.unplaced) := by
  obtain ⟨_, _, _, hfound, ⟨rest, hrest⟩, hbefore, hpart, hafter⟩ := exists_part h
  obtain ⟨rfl, rfl, rfl⟩ := hocc.unique hfound
  rw [Lexed.ofText, hocc.text_eq, (hbefore.trans hpart).from_eq] at hending
  rw [hrest, hfirst, List.cons_append] at hbefore
  obtain ⟨us, q, hus, rfl⟩ := hnew first.start post hapart
  have hsplit := ((hbefore.replace_rest (new ++ post)).trans hus).from_eq
  obtain ⟨htokens, hend⟩ := from_unplaced q last.stop post
  rw [Lexed.ofText, List.cons_append, hsplit]
  refine ⟨hend.mpr hending, ?_⟩
  rw [List.map_append, List.map_append, htokens, hafter, List.append_assoc]

end Parts

end MirAudit.Source
