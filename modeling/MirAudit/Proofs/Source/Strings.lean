import MirAudit.Body.Printer
import MirAudit.Proofs.Source.Spelling

/-!
# String constants

A string ends at the first quote behind an even run of backslashes, and nowhere else:
`string_length_iff`. A string literal can denote any text in which no high surrogate stands right in
front of a low one, and no other: `denoted_iff`. Such a text is read back from its printed form,
which is one token whatever follows it: `string_const_read_back`.
-/

namespace MirAudit.Source

/-! ## Where a string ends -/

/-- What can stand between the opening quote of a string and its end: a part of a line, an even run
of backslashes with no further one in front of it, and a quote. -/
def EndsString (cs : List Char) : Prop :=
  ∃ line pairs, cs = line ++ (List.replicate (2 * pairs) '\\' ++ ['"']) ∧
    '\n' ∉ line ∧ line.getLast? ≠ some '\\'

/-- A string literal: an opening quote, and behind it the shortest text that can end the string. -/
def IsStringLiteral (cs : List Char) : Prop :=
  ∃ body, cs = '"' :: body ∧ EndsString body ∧
    ∀ front, front <+: body → EndsString front → front = body

namespace EndsString

variable {c : Char} {cs : List Char}

theorem quote : EndsString ['"'] :=
  ⟨[], 0, rfl, List.not_mem_nil, nofun⟩

theorem getLast (h : EndsString cs) : cs.getLast? = some '"' := by
  obtain ⟨line, pairs, rfl, -, -⟩ := h
  rw [← List.append_assoc, List.getLast?_concat]

/-- Only an empty line can come to end in a backslash through its first character. -/
theorem last_cons_iff {line : List Char} : (c :: line).getLast? ≠ some '\\' ↔
    line.getLast? ≠ some '\\' ∧ (line = [] → c ≠ '\\') := by
  cases line with
  | nil => simp
  | cons d line => simp [List.getLast?_cons_cons]

/-- A character that neither is a quote nor escapes one belongs to the line. -/
theorem plain_iff (hquote : c ≠ '"') (hback : c ≠ '\\') :
    EndsString (c :: cs) ↔ c ≠ '\n' ∧ EndsString cs := by
  constructor
  · rintro ⟨line, pairs, heq, hline, hlast⟩
    cases line with
    | nil =>
        cases pairs with
        | zero => exact absurd (List.cons.inj heq).1 hquote
        | succ pairs => exact absurd (List.cons.inj heq).1 hback
    | cons d line =>
        obtain ⟨rfl, rfl⟩ := List.cons.inj heq
        obtain ⟨hfirst, hline⟩ := not_or.mp (List.mem_cons.not.mp hline)
        exact ⟨Ne.symm hfirst, line, pairs, rfl, hline, (last_cons_iff.mp hlast).1⟩
  · rintro ⟨hfirst, line, pairs, rfl, hline, hlast⟩
    exact ⟨c :: line, pairs, rfl, List.not_mem_cons_of_ne_of_not_mem (Ne.symm hfirst) hline,
      last_cons_iff.mpr ⟨hlast, fun _ => hback⟩⟩

/-- A backslash and what it escapes belong to the line, or else are a pair of the run. -/
theorem escape_iff : EndsString ('\\' :: c :: cs) ↔ c ≠ '\n' ∧ EndsString cs := by
  constructor
  · rintro ⟨line, pairs, heq, hline, hlast⟩
    match line with
    | [] =>
        cases pairs with
        | zero => cases heq
        | succ pairs =>
            obtain ⟨rfl, rfl⟩ := List.cons.inj (List.cons.inj heq).2
            exact ⟨by decide, [], pairs, rfl, List.not_mem_nil, nofun⟩
    | [d] =>
        obtain ⟨rfl, -⟩ := List.cons.inj heq
        exact absurd rfl hlast
    | d :: e :: line =>
        obtain ⟨rfl, hrest⟩ := List.cons.inj heq
        obtain ⟨rfl, rfl⟩ := List.cons.inj hrest
        simp only [List.mem_cons, not_or] at hline
        have hend := (last_cons_iff.mp (last_cons_iff.mp hlast).1).1
        exact ⟨Ne.symm hline.2.1, line, pairs, rfl, hline.2.2, hend⟩
  · rintro ⟨hfirst, line, pairs, rfl, hline, hlast⟩
    by_cases hpair : c = '\\' ∧ line = []
    · obtain ⟨rfl, rfl⟩ := hpair
      exact ⟨[], pairs + 1, rfl, List.not_mem_nil, nofun⟩
    · have hend : (c :: line).getLast? ≠ some '\\' :=
        last_cons_iff.mpr ⟨hlast, fun hnil hslash => hpair ⟨hslash, hnil⟩⟩
      exact ⟨'\\' :: c :: line, pairs, rfl, by simp [hline, Ne.symm hfirst],
        last_cons_iff.mpr ⟨hend, nofun⟩⟩

end EndsString

section Lengths

variable {cs front tail : List Char} {n : Nat}

/-- A string can end where it is taken to end. -/
theorem ends_string_of_length (h : stringLength? cs = some n) :
    n ≤ cs.length ∧ EndsString (cs.take n) := by
  induction cs using stringLength?.induct generalizing n with
  | case1 => cases h
  | case2 cs =>
      obtain rfl := Option.some.inj h
      exact ⟨by simp, .quote⟩
  | case3 cs =>
      rw [string_length_escape, if_pos rfl] at h
      cases h
  | case4 c cs hline ih =>
      rw [string_length_escape, if_neg hline] at h
      obtain ⟨m, hm, rfl⟩ := Option.map_eq_some_iff.mp h
      obtain ⟨hlength, hends⟩ := ih hm
      exact ⟨by simpa using hlength, EndsString.escape_iff.mpr ⟨hline, hends⟩⟩
  | case5 cs hquote hback =>
      rw [string_length_plain hquote (by decide), if_pos rfl] at h
      cases h
  | case6 c cs hquote hback hline ih =>
      by_cases hslash : c = '\\'
      · obtain rfl := eq_nil_of_escapes_nothing hback hslash
        subst hslash
        cases h
      · rw [string_length_plain hquote hslash, if_neg hline] at h
        obtain ⟨m, hm, rfl⟩ := Option.map_eq_some_iff.mp h
        obtain ⟨hlength, hends⟩ := ih hm
        exact ⟨by simpa using hlength, (EndsString.plain_iff hquote hslash).mpr ⟨hline, hends⟩⟩

/-- Where a string can end, it is taken to end there or earlier, whatever follows. -/
theorem exists_length_of_ends_string (h : EndsString front) (rest : List Char) :
    ∃ n, stringLength? (front ++ rest) = some n ∧ n ≤ front.length := by
  induction front using stringLength?.induct with
  | case1 => cases h.getLast
  | case2 cs => exact ⟨1, rfl, by simp⟩
  | case3 cs => exact absurd rfl (EndsString.escape_iff.mp h).1
  | case4 c cs hline ih =>
      obtain ⟨m, hm, hle⟩ := ih (EndsString.escape_iff.mp h).2
      refine ⟨m + 2, ?_, by simpa using hle⟩
      rw [List.cons_append, List.cons_append, string_length_escape, if_neg hline, hm]
      rfl
  | case5 cs hquote hback =>
      exact absurd rfl ((EndsString.plain_iff hquote (by decide)).mp h).1
  | case6 c cs hquote hback hline ih =>
      by_cases hslash : c = '\\'
      · obtain rfl := eq_nil_of_escapes_nothing hback hslash
        subst hslash
        cases h.getLast
      · obtain ⟨m, hm, hle⟩ := ih ((EndsString.plain_iff hquote hslash).mp h).2
        refine ⟨m + 1, ?_, by simpa using hle⟩
        rw [List.cons_append, string_length_plain hquote hslash, if_neg hline, hm]
        rfl

/-- Behind an opening quote, the string takes the characters that make up a literal with it. -/
theorem string_length_iff :
    stringLength? tail = some n ↔ n ≤ tail.length ∧ IsStringLiteral ('"' :: tail.take n) := by
  constructor
  · intro h
    obtain ⟨hlength, hends⟩ := ends_string_of_length h
    refine ⟨hlength, tail.take n, rfl, hends, fun front hfront hearly => ?_⟩
    obtain ⟨rest, hrest⟩ := hfront.trans (tail.take_prefix n)
    obtain ⟨m, hm, hle⟩ := exists_length_of_ends_string hearly rest
    rw [hrest, h] at hm
    obtain rfl := Option.some.inj hm
    exact hfront.eq_of_length_le (by rwa [List.length_take_of_le hlength])
  · rintro ⟨hlength, body, hbody, hends, hshortest⟩
    obtain rfl := (List.cons.inj hbody).2
    obtain ⟨m, hm, hle⟩ := exists_length_of_ends_string hends (tail.drop n)
    rw [List.take_append_drop] at hm
    rw [List.length_take_of_le hlength] at hle
    obtain ⟨hshort, hearly⟩ := ends_string_of_length hm
    have hsame := congrArg List.length (hshortest _ (List.take_prefix_take_left hle) hearly)
    rw [List.length_take_of_le hshort, List.length_take_of_le hlength] at hsame
    rw [hm, hsame]

end Lengths

/-! ## Printed texts -/

section Printed

variable {p : Position} {s : Text} {tok : Token}

/-- The printed form of a text as a token that starts at `p`. -/
def printedString (p : Position) (s : Text) : Token :=
  let text := (Const.str s).render.toList
  ⟨.string, text, p, p.advanceAll text⟩

theorem text_printed_string : (printedString p s).text = Literal.encode s :=
  String.toList_ofList

theorem is_string_literal_printed : IsStringLiteral (printedString p s).text := by
  rw [text_printed_string]
  obtain ⟨-, hliteral⟩ := string_length_iff.mp (string_length_encode_points s [])
  rwa [List.take_of_length_le (by simp)] at hliteral

/-- The printed form of a text is split off as one token. -/
theorem Splitting.printed_string (rest : List Char) :
    Splitting p ((printedString p s).text ++ rest) [printedString p s] (printedString p s).stop
      rest := by
  unfold printedString
  dsimp only
  rw [Const.render, String.toList_ofList]
  refine .single (starting_with_quote ?_)
  rw [List.append_assoc]
  exact string_length_encode_points s rest

/-- What a string token stands for. -/
theorem lower_str_iff :
    (LiteralTree.str tok).lower = .ok (.str s) ↔ Literal.decode tok.text = some s := by
  rw [LiteralTree.lower]
  cases Literal.decode tok.text with
  | none => exact iff_of_false nofun nofun
  | some text => constructor <;> (rintro ⟨⟩; rfl)

/-- Reading a printed text joins its surrogate pairs, so only a text without any is read back. -/
theorem lower_printed_iff :
    (LiteralTree.str (printedString p s)).lower = .ok (.str s) ↔ Literal.joinPairs s = s := by
  rw [lower_str_iff, text_printed_string]
  exact ⟨Literal.join_pairs_of_decode, Literal.decode_encode⟩

/-! ## Texts that literals denote -/

/-- Some string literal of some source denotes the text. -/
def Denoted (s : Text) : Prop :=
  ∃ source tok, tok ∈ (Lexed.ofText source).tokens ∧ tok.terminal = .string ∧
    (LiteralTree.str tok).lower = .ok (.str s)

theorem denoted_iff_join_pairs : Denoted s ↔ Literal.joinPairs s = s := by
  constructor
  · rintro ⟨_, tok, -, -, hlower⟩
    exact Literal.join_pairs_of_decode (lower_str_iff.mp hlower)
  · -- the printed form on its own is a source with such a literal
    intro h
    have hsplit := (Splitting.printed_string (p := {}) (s := s) []).from_eq
    rw [List.append_nil] at hsplit
    refine ⟨(printedString {} s).text, printedString {} s, ?_, rfl, lower_printed_iff.mpr h⟩
    rw [Lexed.ofText, hsplit]
    exact List.mem_cons_self

/-- A literal can denote the texts in which no high surrogate stands right in front of a low one. -/
theorem denoted_iff :
    Denoted s ↔ s.IsChain fun c d => (c.isHighSurrogate && d.isLowSurrogate) = false :=
  denoted_iff_join_pairs.trans Literal.join_pairs_eq_self_iff

/-- A lone surrogate may stand in front of a point above the basic plane, and a pair the wrong way
around is none. -/
example : Denoted [.ofUnit 0xD83D, ⟨0x1F600, by decide⟩] ∧
    Denoted [.ofUnit 0xDE00, .ofUnit 0xD83D] ∧ ¬ Denoted [.ofUnit 0xD83D, .ofUnit 0xDE00] := by
  simp only [denoted_iff]
  decide

end Printed

/-- Wherever the printed form of a string constant stands, and whatever follows it, it is a string
literal and is split off as one token, and the text goes on behind it. The token stands for the
constant again iff a literal of some source does. -/
theorem string_const_read_back (s : Text) (p : Position) (rest : List Char) :
    let tok := printedString p s
    IsStringLiteral tok.text ∧
      Lexed.from p ((Const.str s).render.toList ++ rest) =
        { Lexed.from tok.stop rest with tokens := tok :: (Lexed.from tok.stop rest).tokens } ∧
      (Denoted s ↔ (LiteralTree.str tok).lower = .ok (.str s)) :=
  ⟨is_string_literal_printed, (Splitting.printed_string rest).from_eq,
    denoted_iff_join_pairs.trans lower_printed_iff.symm⟩

end MirAudit.Source
