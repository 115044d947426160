import MirAudit.Proofs.Source.Derivations
import MirAudit.Proofs.Source.Spelling
import MirAudit.Source.Syntax

/-!
# Phrases

`Phrase p s P` says that the text `s`, wherever it stands, is read as what the part `p` of the
syntax yields, with a value of which `P` holds. A phrase is put together from the phrases of the
parts of `p`, where no word may run over from one text to the next: `Joint`.
-/

namespace MirAudit.Source

/-! ## Joints -/

/-- The text ends with a character that no word contains. -/
def Closed (s : String) : Prop :=
  ∃ c ∈ s.toList.getLast?, WordChar.isWordChar c = false

/-- The text starts with a character that no word contains. -/
def Opening (s : String) : Prop :=
  ∃ c ∈ s.toList.head?, WordChar.isWordChar c = false

/-- No word runs over from one text to the next. -/
def Joint (s t : String) : Prop :=
  Apart s.toList t.toList

section Joints

variable {s t : String}

/-- Only the end of a text decides whether it is closed. -/
theorem Closed.append (h : Closed t) : Closed (s ++ t) := by
  obtain ⟨c, hc, hword⟩ := h
  have hne : t.toList ≠ [] := fun hnil => by
    rw [hnil] at hc
    cases hc
  refine ⟨c, ?_, hword⟩
  rwa [String.toList_append, List.getLast?_append_of_ne_nil _ hne]

/-- Marks are made of characters that no word contains. -/
theorem Closed.mark (m : Mark) : Closed m.text := by
  cases m <;> exact ⟨_, rfl, rfl⟩

/-- Behind a blank a new word starts. -/
theorem Closed.blank : Closed " " :=
  ⟨' ', rfl, rfl⟩

/-- Closed texts behind a closed text are closed together, even if there are none. -/
theorem Closed.join {texts : List String} (hs : Closed s) (h : ∀ text ∈ texts, Closed text) :
    Closed (s ++ String.join texts) := by
  induction texts generalizing s with
  | nil => rwa [String.join_nil, String.append_empty]
  | cons text texts ih =>
      obtain ⟨htext, hrest⟩ := List.forall_mem_cons.mp h
      rw [String.join_cons, ← String.append_assoc]
      exact ih htext.append hrest

/-- Only the start of a text decides whether it opens. -/
theorem Opening.append (h : Opening s) : Opening (s ++ t) := by
  obtain ⟨c, hc, hword⟩ := h
  refine ⟨c, ?_, hword⟩
  rw [String.toList_append, List.head?_append, hc]
  rfl

/-- A mark ends the word in front of it. -/
theorem Opening.mark (m : Mark) : Opening m.text := by
  cases m <;> exact ⟨_, rfl, rfl⟩

/-- A blank ends the word in front of it. -/
theorem Opening.blank : Opening " " :=
  ⟨' ', rfl, rfl⟩

namespace Joint

/-- Anything may follow a closed text. -/
theorem of_closed (h : Closed s) : Joint s t := by
  obtain ⟨c, hc, hword⟩ := h
  left
  intro d hd
  obtain rfl := Option.some.inj (hc.symm.trans hd)
  exact hword

/-- Anything may stand in front of a text that opens. -/
theorem of_opening (h : Opening t) : Joint s t := by
  obtain ⟨c, hc, hword⟩ := h
  obtain ⟨rest, hlist⟩ := List.head?_eq_some_iff.mp hc
  right
  rw [hlist, endsWord, hword]
  rfl

/-- No word runs over into nothing. -/
theorem empty : Joint s "" :=
  Or.inr rfl

/-- Texts that open may follow anything, even if there are none. -/
theorem join {texts : List String} (h : ∀ text ∈ texts, Opening text) :
    Joint s (String.join texts) := by
  cases texts with
  | nil => exact .empty
  | cons text texts =>
      rw [String.join_cons]
      exact .of_opening (h text List.mem_cons_self).append

end Joint

end Joints

/-! ## Parts of the syntax -/

/-- The text is read as what the part yields, with a value of which `P` holds. -/
def Phrase {α : Type} (p : Syntax.Part α) (s : String) (P : α → Prop) : Prop :=
  ∃ ts a, Reads s.toList ts ∧ Gram.Derives Syntax.definition p ts a ∧ P a

namespace Phrase

variable {α β γ δ ε : Type} {p p' : Syntax.Part α} {q : Syntax.Part β} {s t : String} {P : α → Prop}
  {Q : β → Prop}

/-- A phrase with a value of which more is known. -/
theorem imp {P' : α → Prop} (h : Phrase p s P) (himp : ∀ a, P a → P' a) : Phrase p s P' := by
  obtain ⟨ts, a, hreads, hderives, ha⟩ := h
  exact ⟨ts, a, hreads, hderives, himp a ha⟩

/-- Another way to write down a text does not matter. -/
theorem of_eq (h : Phrase p s P) (hst : s = t) : Phrase p t P :=
  hst ▸ h

/-- The empty text is read as what needs no token. -/
theorem pure {a : α} (ha : P a) : Phrase (Pure.pure a) "" P :=
  ⟨[], a, .nil, .done a, ha⟩

/-- A phrase of the first of two parts is one of their choice. -/
theorem left (h : Phrase p s P) : Phrase (p <|> p') s P := by
  obtain ⟨ts, a, hreads, hderives, ha⟩ := h
  exact ⟨ts, a, hreads, .left hderives, ha⟩

/-- A phrase of the second of two parts is one of their choice. -/
theorem right (h : Phrase p' s P) : Phrase (p <|> p') s P := by
  obtain ⟨ts, a, hreads, hderives, ha⟩ := h
  exact ⟨ts, a, hreads, .right hderives, ha⟩

/-- A function of what is read. -/
theorem map {f : α → β} (h : Phrase p s P) (hf : ∀ a, P a → Q (f a)) : Phrase (f <$> p) s Q := by
  obtain ⟨ts, a, hreads, hderives, ha⟩ := h
  exact ⟨ts, f a, hreads, .map hderives, hf a ha⟩

/-- A value that does not depend on what is read. -/
theorem giving {b : β} (h : Phrase p s P) (hb : Q b) : Phrase (p.giving b) s Q := by
  obtain ⟨ts, a, hreads, hderives, -⟩ := h
  exact ⟨ts, b, hreads, .map hderives, hb⟩

/-- What is read with its span, of which nothing is said. -/
theorem spanned {P' : Spanned α → Prop} (h : Phrase p s P) (hP : ∀ a, P a.value → P' a) :
    Phrase (.spanned p) s P' := by
  obtain ⟨ts, a, hreads, hderives, ha⟩ := h
  exact ⟨ts, _, hreads, .spanned hderives, hP _ ha⟩

/-- Types are read by their rule. -/
theorem ty {P : TypeTree → Prop} (h : Phrase (Syntax.definition .ty) s P) :
    Phrase Syntax.ty s P := by
  obtain ⟨ts, a, hreads, hderives, ha⟩ := h
  exact ⟨ts, a, hreads, .rule hderives, ha⟩

/-- Paths are read by their rule. -/
theorem path {P : PathTree → Prop} (h : Phrase (Syntax.definition .path) s P) :
    Phrase Syntax.path s P := by
  obtain ⟨ts, a, hreads, hderives, ha⟩ := h
  exact ⟨ts, a, hreads, .rule hderives, ha⟩

/-- Two phrases one after the other, with no word across them. -/
theorem seq (hp : Phrase p s P) (hq : Phrase q t Q) (hjoint : Joint s t) :
    Phrase (.seq p q) (s ++ t) fun ab => P ab.1 ∧ Q ab.2 := by
  obtain ⟨ts, a, hs, hts, ha⟩ := hp
  obtain ⟨us, b, ht, hus, hb⟩ := hq
  refine ⟨ts ++ us, (a, b), ?_, .seq hts hus, ha, hb⟩
  rw [String.toList_append]
  exact hs.append ht hjoint

/-- A function that is read, applied to what is read behind it. -/
theorem ap {r : Syntax.Part (α → β)} (hr : Phrase r s fun f => ∀ a, P a → Q (f a))
    (hp : Phrase p t P) (hjoint : Joint s t) : Phrase (r <*> p) (s ++ t) Q :=
  (hr.seq hp hjoint).map fun _ h => h.1 _ h.2

/-- Of two phrases only what the first yields is kept. -/
theorem seq_left (hp : Phrase p s P) (hq : Phrase q t Q) (hjoint : Joint s t) :
    Phrase (p <* q) (s ++ t) P :=
  (hp.seq hq hjoint).map fun _ h => h.1

/-- Of two phrases only what the second yields is kept. -/
theorem seq_right (hp : Phrase p s P) (hq : Phrase q t Q) (hjoint : Joint s t) :
    Phrase (p *> q) (s ++ t) Q :=
  (hp.seq hq hjoint).map fun _ h => h.2

section Build

variable {r : Syntax.Part γ} {w : Syntax.Part δ} {u v : String} {I : γ → Prop} {J : δ → Prop}
  {K : ε → Prop}

/-- What is built from two phrases in a row. -/
theorem map₂ {build : α → β → ε} (hp : Phrase p s P) (hq : Phrase q t Q) (hjoint : Joint s t)
    (hbuild : ∀ a b, P a → Q b → K (build a b)) : Phrase (build <$> p <*> q) (s ++ t) K :=
  .ap (.map hp fun a ha b => hbuild a b ha) hq hjoint

/-- What is built from three phrases in a row. -/
theorem map₃ {build : α → β → γ → ε} (hp : Phrase p s P) (hq : Phrase q t Q) (hr : Phrase r u I)
    (hpq : Joint s t) (hqr : Joint (s ++ t) u)
    (hbuild : ∀ a b c, P a → Q b → I c → K (build a b c)) :
    Phrase (build <$> p <*> q <*> r) (s ++ t ++ u) K :=
  .ap (.map₂ hp hq hpq fun a b ha hb c => hbuild a b c ha hb) hr hqr

/-- What is built from four phrases in a row. -/
theorem map₄ {build : α → β → γ → δ → ε} (hp : Phrase p s P) (hq : Phrase q t Q)
    (hr : Phrase r u I) (hw : Phrase w v J) (hpq : Joint s t) (hqr : Joint (s ++ t) u)
    (hrw : Joint (s ++ t ++ u) v)
    (hbuild : ∀ a b c d, P a → Q b → I c → J d → K (build a b c d)) :
    Phrase (build <$> p <*> q <*> r <*> w) (s ++ t ++ u ++ v) K :=
  .ap (.map₃ hp hq hr hpq hqr fun a b c ha hb hc d => hbuild a b c d ha hb hc) hw hrw

end Build

/-! ### Blanks and single tokens -/

/-- Blanks in front of a phrase are skipped. -/
theorem blanks_before (ws : String) (hws : ws.toList.all isBlank = true)
    (h : Phrase p s P) : Phrase p (ws ++ s) P := by
  obtain ⟨ts, a, hreads, hderives, ha⟩ := h
  rw [List.all_eq_true] at hws
  have hclosed : Apart ws.toList s.toList :=
    Or.inl fun c hc => not_word_char_of_blank (hws c (List.mem_of_getLast? hc))
  refine ⟨ts, a, ?_, hderives, ha⟩
  rw [String.toList_append, ← List.nil_append ts]
  exact (Reads.blanks hws).append hreads hclosed

/-- Blanks behind a phrase are skipped. -/
theorem blanks_after (ws : String) (hws : ws.toList.all isBlank = true)
    (h : Phrase p s P) : Phrase p (s ++ ws) P := by
  obtain ⟨ts, a, hreads, hderives, ha⟩ := h
  rw [List.all_eq_true] at hws
  have hopening : endsWord ws.toList = true := by
    cases hlist : ws.toList with
    | nil => rfl
    | cons c rest =>
        have hc := not_word_char_of_blank (hws c (hlist ▸ List.mem_cons_self))
        rw [endsWord, hc]
        rfl
  refine ⟨ts, a, ?_, hderives, ha⟩
  rw [String.toList_append, ← List.append_nil ts]
  exact hreads.append (.blanks hws) (Or.inr hopening)

/-- A blank in front of a phrase is skipped. -/
theorem blank_before (h : Phrase p s P) : Phrase p (" " ++ s) P :=
  h.blanks_before " " (by decide)

/-- A blank behind a phrase is skipped. -/
theorem blank_after (h : Phrase p s P) : Phrase p (s ++ " ") P :=
  h.blanks_after " " (by decide)

/-- A text that is read as one token is a phrase of its terminal. -/
theorem token {t : Terminal} {P : Token → Prop} (h : Reads s.toList [spelled t s.toList])
    (hP : P (spelled t s.toList)) : Phrase (.token t) s P :=
  ⟨_, _, h, .token (spelled t s.toList), hP⟩

/-- A name is read with its text. -/
theorem name {name : String} (h : IsName name.toList) :
    Phrase (.token .name) name fun tok => tok.string = name :=
  token (.name h) String.ofList_toList

/-- A written slot is read as its number. -/
theorem slot {n : Nat} (h : Digits.Readable n) :
    Phrase (.token .slot) (renderSlot n) fun tok => slotNumber tok = .ok n :=
  token (.slot n) (slot_number_spelled n h)

/-- A written block is read as its number. -/
theorem block_ref {n : Nat} (h : Digits.Readable n) :
    Phrase (.token .blockRef) (renderBlockRef n) fun tok => blockNumber tok = .ok n :=
  token (.block_ref n) (block_number_spelled n h)

/-- A written integer is read as such. -/
theorem integer {value : Int} (h : Digits.Readable value.natAbs) :
    Phrase (.token .integer) (toString value) fun tok => integerValue tok = .ok value :=
  token (.integer value) (integer_value_spelled h)

/-- A text without surrogate pairs is read from its written form. -/
theorem string {text : Text} (h : Literal.joinPairs text = text) :
    Phrase (.token .string) (String.ofList (Literal.encode text))
      fun tok => Literal.decode tok.text = some text := by
  refine token ?_ ?_
  · rw [String.toList_ofList]
    exact .string text
  · rw [String.toList_ofList]
    exact Literal.decode_encode h

/-- A keyword is read from its text. -/
theorem kw (k : Keyword) : Phrase (Syntax.kw k) k.text fun _ => True :=
  token (.keyword k) trivial

/-- A mark is read from its text; a colon or a plus can be the start of another token. -/
theorem mark (m : Mark) (h : m ≠ .colon ∧ m ≠ .plus) :
    Phrase (Syntax.mark m) m.text fun _ => True :=
  token (.mark h.1 h.2) trivial

/-- A colon is read in front of a blank. -/
theorem colon : Phrase (Syntax.mark .colon) ": " fun _ => True :=
  ⟨_, _, .colon, .token (spelled (.mark .colon) [':']), trivial⟩

/-- A phrase behind a mark. -/
theorem behind_mark (m : Mark) (hm : m ≠ .colon ∧ m ≠ .plus) (h : Phrase p s P) :
    Phrase (Syntax.mark m *> p) (m.text ++ s) P :=
  (mark m hm).seq_right h (.of_closed (.mark m))

/-- A phrase in front of a mark. -/
theorem before_mark (h : Phrase p s P) (m : Mark) (hm : m ≠ .colon ∧ m ≠ .plus) :
    Phrase (p <* Syntax.mark m) (s ++ m.text) P :=
  h.seq_left (mark m hm) (.of_opening (.mark m))

/-- A phrase behind a colon and a blank. -/
theorem behind_colon (h : Phrase p s P) : Phrase (Syntax.mark .colon *> p) (": " ++ s) P :=
  colon.seq_right h (.of_closed ⟨' ', rfl, rfl⟩)

/-- A phrase behind a keyword and a blank. -/
theorem behind_kw (k : Keyword) (h : Phrase p s P) :
    Phrase (Syntax.kw k *> p) (k.text ++ " " ++ s) P :=
  (kw k).blank_after.seq_right h (.of_closed (.append .blank))

/-- A mark right behind a keyword. -/
theorem kw_mark (k : Keyword) (m : Mark) (hm : m ≠ .colon ∧ m ≠ .plus) :
    Phrase (Syntax.kw k *> Syntax.mark m) (k.text ++ m.text) fun _ => True :=
  (kw k).seq_right (mark m hm) (.of_opening (.mark m))

/-! ### Lists -/

section Lists

variable {xs : List γ} {r : γ → String} {R : γ → α → Prop}

/-- The empty text is read as no repetition. -/
theorem many_nil {Q : List α → Prop} (hQ : Q []) : Phrase (.many p) "" Q :=
  ⟨[], [], .nil, .manyNil, hQ⟩

/-- One more phrase in front of a repetition. -/
theorem many_cons {Q Q' : List α → Prop} (hp : Phrase p s P) (hrest : Phrase (.many p) t Q)
    (hjoint : Joint s t) (hQ : ∀ a as, P a → Q as → Q' (a :: as)) :
    Phrase (.many p) (s ++ t) Q' := by
  obtain ⟨ts, a, hs, hts, ha⟩ := hp
  obtain ⟨us, as, ht, hus, has⟩ := hrest
  refine ⟨ts ++ us, a :: as, ?_, .manyCons hts hus, hQ a as ha has⟩
  rw [String.toList_append]
  exact hs.append ht hjoint

/-- The phrases of a list, all of which open or all of which are closed, are read as a repetition
with one value for each. -/
theorem many (h : ∀ x ∈ xs, Phrase p (r x) (R x))
    (hjoint : (∀ x ∈ xs, Opening (r x)) ∨ ∀ x ∈ xs, Closed (r x)) :
    Phrase (.many p) (String.join (xs.map r)) (List.Forall₂ R xs) := by
  induction xs with
  | nil => exact many_nil .nil
  | cons x xs ih =>
      obtain ⟨hx, hxs⟩ := List.forall_mem_cons.mp h
      have hrest : (∀ y ∈ xs, Opening (r y)) ∨ ∀ y ∈ xs, Closed (r y) :=
        hjoint.imp (fun hall y hy => hall y (List.mem_cons_of_mem x hy))
          fun hall y hy => hall y (List.mem_cons_of_mem x hy)
      have hhead : Joint (r x) (String.join (xs.map r)) := by
        rcases hjoint with hopening | hclosed
        · refine .join (List.forall_mem_map.mpr fun y hy => ?_)
          exact hopening y (List.mem_cons_of_mem x hy)
        · exact .of_closed (hclosed x List.mem_cons_self)
      rw [List.map_cons, String.join_cons]
      exact many_cons hx (ih hxs hrest) hhead fun _ _ ha has => .cons ha has

/-- A list with separators is its first member and then each other one behind a separator. -/
theorem intercalate_cons_eq (sep first : String) (rest : List String) :
    sep.intercalate (first :: rest) = first ++ String.join (rest.map (sep ++ ·)) := by
  induction rest generalizing first with
  | nil => rw [String.intercalate_singleton, List.map_nil, String.join_nil, String.append_empty]
  | cons next rest ih =>
      rw [String.intercalate_cons_cons, ih, List.map_cons, String.join_cons, String.append_assoc,
        String.append_assoc]

/-- One or more phrases with the separator between them. -/
theorem separated {m : Mark} {sep : String} (hsep : Phrase (Syntax.mark m) sep fun _ => True)
    (hclosed : Closed sep) (hopening : Opening sep) (hne : xs ≠ [])
    (h : ∀ x ∈ xs, Phrase p (r x) (R x)) :
    Phrase (Syntax.separated m p) (sep.intercalate (xs.map r)) (List.Forall₂ R xs) := by
  obtain ⟨first, rest, rfl⟩ := List.exists_cons_of_ne_nil hne
  obtain ⟨hfirst, hrest⟩ := List.forall_mem_cons.mp h
  have hmore : Phrase (.many (Syntax.mark m *> p)) (String.join (rest.map fun x => sep ++ r x))
      (List.Forall₂ R rest) :=
    many (fun x hx => hsep.seq_right (hrest x hx) (.of_closed hclosed))
      (Or.inl fun _ _ => hopening.append)
  have hall : Phrase (Syntax.separated m p) (r first ++ String.join (rest.map fun x => sep ++ r x))
      (List.Forall₂ R (first :: rest)) :=
    .ap (.map hfirst fun _ ha _ has => .cons ha has) hmore
      (.join (List.forall_mem_map.mpr fun _ _ => hopening.append))
  refine hall.of_eq ?_
  rw [List.map_cons, intercalate_cons_eq, List.map_map]
  rfl

/-- One or more phrases with commas between them. -/
theorem commas (hne : xs ≠ []) (h : ∀ x ∈ xs, Phrase p (r x) (R x)) :
    Phrase (Syntax.separated .comma p) (String.intercalate ", " (xs.map r)) (List.Forall₂ R xs) := by
  have hsep : Phrase (Syntax.mark .comma) ", " fun _ => True :=
    (mark .comma (by decide)).blank_after.of_eq (by decide)
  exact separated hsep ⟨' ', rfl, rfl⟩ ⟨',', rfl, rfl⟩ hne h

/-- Phrases with commas between them in parentheses. -/
theorem parenthesised (h : ∀ x ∈ xs, Phrase p (r x) (R x)) :
    Phrase (Syntax.parenthesised p) ("(" ++ String.intercalate ", " (xs.map r) ++ ")")
      (List.Forall₂ R xs) := by
  have hlist : Phrase (Syntax.orNothing (Syntax.separated .comma p))
      (String.intercalate ", " (xs.map r)) (List.Forall₂ R xs) := by
    cases xs with
    | nil => exact .right (.pure .nil)
    | cons x xs => exact .left (commas (List.cons_ne_nil _ _) h)
  exact (hlist.behind_mark .parenOpen (by decide)).before_mark .parenClose (by decide)

/-- One or more phrases with commas between them in angle brackets. -/
theorem angled (hne : xs ≠ []) (h : ∀ x ∈ xs, Phrase p (r x) (R x)) :
    Phrase (Syntax.angled p) ("<" ++ String.intercalate ", " (xs.map r) ++ ">")
      (List.Forall₂ R xs) :=
  ((commas hne h).behind_mark .angleOpen (by decide)).before_mark .angleClose (by decide)

end Lists

end Phrase

end MirAudit.Source
