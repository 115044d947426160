import MirAudit.Proofs.Source.Phrases
import MirAudit.Proofs.Source.Reference

/-!
# Where items stand

The tokens of a text stand one behind the other, and so do the items that they make up:
`items_in_order`. An item ends with a semicolon or a closing brace, which no word runs over. So the
part of the text that an item takes can be cut out and put anywhere: `item_phrase`.
-/

namespace MirAudit.Source

/-! ## The order of positions -/

namespace Position

/-- A position that is no further down the text, and on the same line no further to the right. -/
instance : LE Position where
  le p q := p.line < q.line ∨ p.line = q.line ∧ p.column ≤ q.column

variable {p q r : Position}

/-- Positions are ordered by line first and then by column. -/
theorem le_def : p ≤ q ↔ p.line < q.line ∨ p.line = q.line ∧ p.column ≤ q.column :=
  Iff.rfl

instance (p q : Position) : Decidable (p ≤ q) :=
  decidable_of_iff _ le_def.symm

theorem le_refl (p : Position) : p ≤ p :=
  Or.inr ⟨rfl, Nat.le_refl _⟩

theorem le_trans (h : p ≤ q) (h' : q ≤ r) : p ≤ r := by
  rw [le_def] at h h' ⊢
  omega

/-- Reading on never leads back. -/
theorem le_advance_all (p : Position) (cs : List Char) : p ≤ p.advanceAll cs := by
  rw [le_def]
  rcases p.advance_all_spec cs with hline | ⟨hline, hcolumn⟩
  · exact Or.inl hline
  · exact Or.inr ⟨hline.symm, hcolumn ▸ Nat.le_add_right _ _⟩

end Position

/-! ## The part of a text in a region -/

theorem Position.not_advance_le (p : Position) (c : Char) : ¬ p.advance c ≤ p := by
  rw [le_def, advance]
  split <;> dsimp only <;> omega

/-- The characters in the region of a text that starts at `p`. -/
def Region.between (r : Region) : Position → List Char → List Char
  | _, [] => []
  | p, c :: cs =>
    if r.start ≤ p ∧ p.advance c ≤ r.stop then c :: r.between (p.advance c) cs
    else r.between (p.advance c) cs

/-- The part of a text that takes the region. -/
def Region.cut (r : Region) (text : List Char) : String :=
  String.ofList (r.between {} text)

namespace Region

variable {r : Region} {p : Position} {cs ds : List Char}

/-- What a region covers of two parts is what it covers of each. -/
theorem between_append :
    r.between p (cs ++ ds) = r.between p cs ++ r.between (p.advanceAll cs) ds := by
  induction cs generalizing p with
  | nil => rfl
  | cons c cs ih =>
      rw [List.cons_append, between, between]
      split
      · exact congrArg (c :: ·) ih
      · exact ih

/-- A region covers all of a part that stands inside it. -/
theorem between_of_le (hstart : r.start ≤ p) (hstop : p.advanceAll cs ≤ r.stop) :
    r.between p cs = cs := by
  induction cs generalizing p with
  | nil => rfl
  | cons c cs ih =>
      have hnext : p ≤ p.advance c := p.le_advance_all [c]
      have hhere : p.advance c ≤ r.stop := Position.le_trans ((p.advance c).le_advance_all cs) hstop
      rw [between, if_pos ⟨hstart, hhere⟩, ih (Position.le_trans hstart hnext) hstop]

/-- Nothing is cut out of what ends before the region. -/
theorem between_before (h : p.advanceAll cs ≤ r.start) : r.between p cs = [] := by
  induction cs generalizing p with
  | nil => rfl
  | cons c cs ih =>
      have hhere : p.advance c ≤ r.start := Position.le_trans ((p.advance c).le_advance_all cs) h
      have hnot : ¬ (r.start ≤ p ∧ p.advance c ≤ r.stop) := fun hin =>
        p.not_advance_le c (Position.le_trans hhere hin.1)
      rw [between, if_neg hnot, ih h]

/-- Nothing is cut out of what starts behind the region. -/
theorem between_behind (h : r.stop ≤ p) : r.between p cs = [] := by
  induction cs generalizing p with
  | nil => rfl
  | cons c cs ih =>
      have hnot : ¬ (r.start ≤ p ∧ p.advance c ≤ r.stop) := fun hin =>
        p.not_advance_le c (Position.le_trans hin.2 h)
      have hnext : p ≤ p.advance c := p.le_advance_all [c]
      rw [between, if_neg hnot, ih (Position.le_trans h hnext)]

end Region

/-- What takes the region is cut out. -/
theorem Occupies.cut {text pre old post : List Char} {r : Region} (h : Occupies text r pre old post) :
    r.cut text = String.ofList old := by
  obtain ⟨rfl, hstart, hstop⟩ := h
  have hpre : r.between {} pre = [] := Region.between_before (hstart ▸ Position.le_refl _)
  have hold : r.between r.start old = old := by
    refine Region.between_of_le (Position.le_refl _) ?_
    rw [← hstart, ← Position.advance_all_append, hstop]
    exact Position.le_refl _
  have hpost : r.between r.stop post = [] := Region.between_behind (Position.le_refl _)
  have hbehind : r.start.advanceAll old = r.stop := by
    rw [← hstart, ← Position.advance_all_append, hstop]
  rw [Region.cut, Region.between_append, hpre, hstart, Region.between_append, hold, hbehind, hpost,
    List.nil_append, List.append_nil]

/-! ## Tokens one behind the other -/

/-- The first token ends where the second one starts, or in front of it. -/
def Token.Before (tok next : Token) : Prop :=
  tok.stop ≤ next.start

/-- No token of a text starts in front of the text, none ends in front of its start, and each stands
before all that follow it. -/
theorem tokens_in_order (p : Position) (text : List Char) :
    (∀ tok ∈ (Lexed.from p text).tokens, p ≤ tok.start ∧ tok.start ≤ tok.stop) ∧
      (Lexed.from p text).tokens.Pairwise Token.Before := by
  induction p, text using Lexed.from.induct with
  | case1 p => simp [Lexed.from]
  | case2 p c tail hpiece => simp [Lexed.from, hpiece]
  | case3 p c tail further hpiece ih =>
      rw [Lexed.from, hpiece]
      have hfront := p.le_advance_all (c :: tail.take further)
      exact ⟨fun tok htok => ⟨Position.le_trans hfront (ih.1 tok htok).1, (ih.1 tok htok).2⟩, ih.2⟩
  | case4 p c tail terminal further hpiece text =>
      rename_i ih
      rw [Lexed.from, hpiece]
      have hfront := p.le_advance_all text
      refine ⟨List.forall_mem_cons.mpr ⟨⟨p.le_refl, hfront⟩, fun tok htok => ?_⟩,
        List.pairwise_cons.mpr ⟨fun tok htok => (ih.1 tok htok).1, ih.2⟩⟩
      exact ⟨Position.le_trans hfront (ih.1 tok htok).1, (ih.1 tok htok).2⟩

/-- The region of some tokens starts and stops with them. -/
theorem Region.of_tokens_concat (first last : Token) (inner : List Token) :
    Region.ofTokens (first :: inner ++ [last]) = ⟨first.start, last.stop⟩ := by
  rw [Region.ofTokens, List.getLast?_concat]
  rfl

/-- The region of some tokens reaches from the first to the last. -/
theorem Region.of_tokens_eq {ts : List Token} (h : ts ≠ []) :
    Region.ofTokens ts = ⟨(ts.head h).start, (ts.getLast h).stop⟩ := by
  rw [Region.ofTokens, List.getLast?_eq_some_getLast h, List.head?_eq_some_head h]
  rfl

/-- The region of a part of some tokens one behind the other ends before that of what follows. -/
theorem stop_le_start {ts us : List Token} (hts : ts ≠ []) (hus : us ≠ [])
    (h : ∀ tok ∈ ts, ∀ next ∈ us, tok.Before next) :
    (Region.ofTokens ts).stop ≤ (Region.ofTokens us).start := by
  rw [Region.of_tokens_eq hts, Region.of_tokens_eq hus]
  exact h _ (List.getLast_mem hts) _ (List.head_mem hus)

/-- Each of some tokens one behind the other stands inside their region. -/
theorem mem_within {ts : List Token} (hplaced : ∀ tok ∈ ts, tok.start ≤ tok.stop)
    (horder : ts.Pairwise Token.Before) {tok : Token} (htok : tok ∈ ts) :
    (Region.ofTokens ts).start ≤ tok.start ∧ tok.stop ≤ (Region.ofTokens ts).stop := by
  rw [Region.of_tokens_eq (List.ne_nil_of_mem htok)]
  obtain ⟨before, after, rfl⟩ := List.append_of_mem htok
  obtain ⟨-, hbehind, hbefore⟩ := List.pairwise_append.mp horder
  constructor
  · cases before with
    | nil => exact Position.le_refl _
    | cons first before =>
        have hfirst := hbefore first List.mem_cons_self tok List.mem_cons_self
        exact Position.le_trans (hplaced first List.mem_cons_self) hfirst
  · rw [List.getLast_append_of_ne_nil _ (List.cons_ne_nil tok after)]
    rcases List.eq_nil_or_concat after with rfl | ⟨inner, last, rfl⟩
    · exact Position.le_refl _
    · have hlast : tok.Before last := (List.pairwise_cons.mp hbehind).1 last (by simp)
      have hstop := Position.le_trans hlast (hplaced last (by simp))
      simpa using hstop

section Items

variable {text : List Char} {items : List (Spanned ItemTree)} {item : Spanned ItemTree}
  {parts : List (List Token)} {ts : List Token}

/-- The tokens of a text that is read are those of its items one after another. -/
theorem exists_item_parts (h : readText text = .ok items) :
    ∃ parts, (Lexed.ofText text).tokens = parts.flatten ∧
      List.Forall₂ (Gram.Derives Syntax.definition Syntax.item) parts items := by
  obtain ⟨parts, hparts, htokens⟩ := Gram.derives_many_iff.mp
    (Reference.derives_program_iff.mp (read_text_eq_ok.mp h).2)
  exact ⟨parts, htokens, hparts⟩

/-- An item has tokens, and its region is theirs. -/
theorem item_region (h : Gram.Derives Syntax.definition Syntax.item ts item) :
    ts ≠ [] ∧ item.region = Region.ofTokens ts :=
  ⟨Reference.lookahead.ne_nil_of_derives h rfl, (Gram.derives_spanned_iff.mp h).2⟩

/-- What is derived in a row is derived from a part of the tokens. -/
theorem exists_part_of_mem {α β : Type} {R : α → β → Prop} {parts : List α} {values : List β}
    (h : List.Forall₂ R parts values) {value : β} (hvalue : value ∈ values) :
    ∃ front part back, parts = front ++ part :: back ∧ R part value := by
  obtain ⟨before, after, rfl⟩ := List.append_of_mem hvalue
  obtain ⟨front, rest, rfl, -, hrest⟩ := Gram.split_of_forall₂ h.flip
  obtain ⟨part, back, hpart, -, rfl⟩ := List.forall₂_cons_left_iff.mp hrest
  exact ⟨front, part, back, rfl, hpart⟩

/-- The items of a text stand one behind the other. -/
theorem items_in_order (h : readText text = .ok items) :
    items.Pairwise fun item next => item.region.stop ≤ next.region.start := by
  obtain ⟨parts, htokens, hparts⟩ := exists_item_parts h
  have horder := (tokens_in_order {} text).2
  rw [← Lexed.ofText, htokens, List.pairwise_flatten] at horder
  replace horder := horder.2
  clear htokens h
  induction hparts with
  | nil => exact .nil
  | cons hpart hrest ih =>
      obtain ⟨hhead, htail⟩ := List.pairwise_cons.mp horder
      refine List.pairwise_cons.mpr ⟨fun next hnext => ?_, ih htail⟩
      obtain ⟨front, us, back, rfl, hderives⟩ := exists_part_of_mem hrest hnext
      have hus : us ∈ front ++ us :: back := List.mem_append_right _ List.mem_cons_self
      obtain ⟨hne, hregion⟩ := item_region hpart
      obtain ⟨hne', hregion'⟩ := item_region hderives
      rw [hregion, hregion']
      exact stop_le_start hne hne' (hhead us hus)

end Items

/-! ## How items end -/

/-- A token that ends items. -/
def Token.Closing (tok : Token) : Prop :=
  tok.terminal = .mark .semicolon ∨ tok.terminal = .mark .braceClose

/-- The tokens of an item start with a keyword, and the last one ends it. -/
def Closes {α : Type} (p : Syntax.Part α) : Prop :=
  ∀ ts a, Gram.Derives Syntax.definition p ts a → ∃ front last, ts = front ++ [last] ∧ last.Closing

namespace Closes

variable {α β : Type} {p p' : Syntax.Part α} {q : Syntax.Part β}

theorem semicolon : Closes (Syntax.mark .semicolon) := by
  intro ts a h
  obtain ⟨rfl, hterminal⟩ := Gram.derives_token_iff.mp h
  exact ⟨[], a, rfl, Or.inl hterminal⟩

theorem brace : Closes (Syntax.mark .braceClose) := by
  intro ts a h
  obtain ⟨rfl, hterminal⟩ := Gram.derives_token_iff.mp h
  exact ⟨[], a, rfl, Or.inr hterminal⟩

/-- Whatever is read in front, the last token is the closing one. -/
theorem behind {us vs : List Token} {b : β} (hq : Closes q)
    (h : Gram.Derives Syntax.definition q vs b) :
    ∃ front last, us ++ vs = front ++ [last] ∧ last.Closing := by
  obtain ⟨front, last, rfl, hlast⟩ := hq vs b h
  exact ⟨us ++ front, last, (List.append_assoc _ _ _).symm, hlast⟩

theorem seq_left (hq : Closes q) : Closes (p <* q) := by
  intro ts a h
  obtain ⟨us, vs, b, rfl, -, hderives⟩ := Gram.derives_seq_left_iff.mp h
  exact hq.behind hderives

theorem seq_right (hq : Closes q) : Closes (p *> q) := by
  intro ts b h
  obtain ⟨us, vs, a, rfl, -, hderives⟩ := Gram.derives_seq_right_iff.mp h
  exact hq.behind hderives

theorem ap {f : Syntax.Part (α → β)} (hp : Closes p) : Closes (f <*> p) := by
  intro ts b h
  obtain ⟨us, vs, g, a, rfl, -, hderives, -⟩ := Gram.derives_ap_iff.mp h
  exact hp.behind hderives

theorem map {f : α → β} (hp : Closes p) : Closes (f <$> p) := by
  intro ts b h
  obtain ⟨a, hderives, -⟩ := Gram.derives_map_iff.mp h
  exact hp ts a hderives

theorem choice (hp : Closes p) (hp' : Closes p') : Closes (p <|> p') := by
  intro ts a h
  exact (Gram.derives_choice_iff.mp h).elim (hp ts a) (hp' ts a)

theorem spanned (hp : Closes p) : Closes (.spanned p) := by
  intro ts a h
  exact hp ts a.value (Gram.derives_spanned_iff.mp h).1

/-- Every item ends with a semicolon or a brace. -/
theorem item : Closes Syntax.item := by
  have hbody : Closes Syntax.body := .spanned (.ap (.seq_left .brace))
  refine .spanned (.choice (.map (.seq_left .semicolon)) (.choice (.seq_right (.choice ?_ ?_))
    (.choice (.ap (.seq_left .semicolon)) (.choice (.ap (.seq_left .brace))
      (.choice (.ap (.seq_left .brace)) (.ap hbody))))))
  · exact .ap (.seq_left .brace)
  · exact .map (.seq_left .semicolon)

end Closes

/-- The tokens of an item start with one token and end with another one, which ends it. -/
theorem exists_ends {ts : List Token} {item : Spanned ItemTree}
    (h : Gram.Derives Syntax.definition Syntax.item ts item) :
    ∃ first inner last, ts = first :: inner ++ [last] ∧ last.Closing ∧
      item.region = ⟨first.start, last.stop⟩ := by
  obtain ⟨front, last, rfl, hlast⟩ := Closes.item _ _ h
  have hregion := (item_region h).2
  cases front with
  | nil =>
      -- no item starts with a token that ends items
      have hfirst := (Reference.lookahead.head_mem_first h).2 last rfl
      exact absurd hfirst (by rcases hlast with hlast | hlast <;> rw [hlast] <;> decide)
  | cons first inner =>
      exact ⟨first, inner, last, rfl, hlast, hregion.trans (Region.of_tokens_concat _ _ _)⟩

/-! ## Items in other places -/

/-- Where a part of a text starts shows only in the places of its tokens. -/
theorem Splitting.moved {p q : Position} {text rest : List Char} {ts : List Token}
    (h : Splitting p text ts q rest) (p' : Position) :
    ∃ us q', Splitting p' text us q' rest ∧ us.map Token.unplaced = ts.map Token.unplaced := by
  induction h generalizing p' with
  | nothing => exact ⟨[], p', .nothing _ _, rfl⟩
  | blank hpiece _ ih =>
      obtain ⟨us, q', hus, hsame⟩ := ih _
      exact ⟨us, q', .blank hpiece hus, hsame⟩
  | token hpiece _ ih =>
      obtain ⟨us, q', hus, hsame⟩ := ih _
      exact ⟨_ :: us, q', .token hpiece hus, congrArg (_ :: ·) hsame⟩

section Parts

variable {text : List Char} {before inner after : List Token} {first last : Token}

/-- A closing token of a text is a single character, which is a token of its own whatever follows
it. -/
theorem Token.Closing.exists_char {p : Position} (h : last.Closing)
    (hmem : last ∈ (Lexed.from p text).tokens) :
    ∃ c, last.text = [c] ∧ WordChar.isWordChar c = false ∧
      ∀ tail, Piece.startingWith c tail = .token last.terminal 0 := by
  rcases h with h | h
  · exact ⟨';', text_of_mark last hmem _ h, rfl, fun _ => h ▸ rfl⟩
  · exact ⟨'\x7d', text_of_mark last hmem _ h, rfl, fun _ => h ▸ rfl⟩

/-- The part of a text that is taken by the tokens from `first` to `last` is read as these tokens
wherever it stands. -/
theorem exists_part_reads
    (h : (Lexed.ofText text).tokens = before ++ (first :: inner ++ [last] ++ after))
    (hlast : last.Closing) :
    ∃ pre old post, Occupies text ⟨first.start, last.stop⟩ pre old post ∧
      (∃ c ∈ old.getLast?, WordChar.isWordChar c = false) ∧
      Reads old ((first :: inner ++ [last]).map Token.unplaced) := by
  have hmem : last ∈ (Lexed.ofText text).tokens := by
    rw [h]
    simp
  obtain ⟨c, hchar, hclosed, hpiece⟩ := hlast.exists_char hmem
  obtain ⟨pre, old, post, hocc, -, -, hpart, -⟩ := exists_part h
  have hbody : (Lexed.from first.start (old ++ post)).tokens = (first :: inner) ++ last ::
      (Lexed.from last.stop post).tokens := by
    rw [hpart.from_eq]
    simp
  obtain ⟨rest, hinner, hend, -⟩ := exists_splitting hbody
  obtain ⟨whole, hwhole, hstop⟩ := hpart.consumed
  obtain ⟨front, hfront, hstart⟩ := hinner.consumed
  obtain ⟨taken, htaken, hlastStop⟩ := hend.consumed
  obtain rfl := List.append_cancel_right hwhole
  obtain rfl := List.append_cancel_right htaken
  rw [hchar] at hinner hfront hlastStop
  have hsplit : old = front ++ [c] ∧ post = rest := by
    refine Position.front_unique (p := first.start) (by rw [hfront, List.append_assoc]) ?_
    rw [← hstop, hlastStop, hstart, Position.advance_all_append]
  obtain ⟨rfl, rfl⟩ := hsplit
  refine ⟨pre, _, post, hocc, ⟨c, List.getLast?_concat, hclosed⟩, fun p tail _ => ?_⟩
  -- the closing mark is read in front of anything
  have hshort : Splitting first.start (front ++ [c] ++ tail) (first :: inner) last.start
      (c :: tail) := by
    rw [List.append_assoc] at hinner ⊢
    exact hinner.replace_rest tail
  have hmark : Splitting last.start (c :: tail)
      [⟨last.terminal, [c], last.start, last.start.advanceAll [c]⟩] (last.start.advanceAll [c])
      tail := .token (hpiece tail) (.nothing _ _)
  have hsame : (⟨last.terminal, [c], last.start, last.start.advanceAll [c]⟩ : Token) = last := by
    rw [← hlastStop, ← hchar]
  rw [hsame] at hmark
  exact (hshort.trans hmark).moved p

end Parts

/-- What an item takes of a text is read as the item, up to places, wherever it stands. -/
theorem item_phrase {text : List Char} {items : List (Spanned ItemTree)} {item : Spanned ItemTree}
    (hread : readText text = .ok items) (hitem : item ∈ items) :
    (∃ pre old post, Occupies text item.region pre old post) ∧ Closed (item.region.cut text) ∧
      Phrase Syntax.item (item.region.cut text) fun tree =>
        tree.unplaced ItemTree.unplaced = item.unplaced ItemTree.unplaced := by
  obtain ⟨parts, htokens, hparts⟩ := exists_item_parts hread
  obtain ⟨before, _, after, rfl, hpart⟩ := exists_part_of_mem hparts hitem
  obtain ⟨first, inner, last, rfl, hlast, hregion⟩ := exists_ends hpart
  rw [List.flatten_append, List.flatten_cons] at htokens
  obtain ⟨pre, old, post, hocc, hclosed, hreads⟩ := exists_part_reads htokens hlast
  rw [← hregion] at hocc
  rw [hocc.cut]
  have hunplaced : (first :: inner ++ [last]).map Token.unplaced =
      ((first :: inner ++ [last]).map Token.unplaced).map Token.unplaced :=
    hreads.map_unplaced.symm
  obtain ⟨tree, hderives, hsame⟩ := Unplaces.item.derives hunplaced hpart
  refine ⟨⟨pre, old, post, hocc⟩, ?_, _, tree, ?_, hderives, hsame.symm⟩
  · rwa [Closed, String.toList_ofList]
  · rwa [String.toList_ofList]

/-- The parts of a text that some of its items take, one after another. -/
def cutAll (text : List Char) (kept : List (Spanned ItemTree)) : String :=
  String.join (kept.map fun item => item.region.cut text)

/-- No word runs over from lines or items that end with a character of no word. -/
theorem Joint.of_lines {lines : List String} {s : String} (h : ∀ line ∈ lines, Closed line) :
    Joint (String.join lines) s := by
  cases lines with
  | nil => exact Or.inl nofun
  | cons line lines =>
      obtain ⟨hline, hrest⟩ := List.forall_mem_cons.mp h
      rw [String.join_cons]
      exact .of_closed (.join hline hrest)

section Kept

variable {text : List Char} {items kept : List (Spanned ItemTree)}

/-- No token of a text that was cut reaches over its end. -/
theorem joint_cut_all (hread : readText text = .ok items) (hkept : ∀ item ∈ kept, item ∈ items)
    (s : String) : Joint (cutAll text kept) s :=
  .of_lines (List.forall_mem_map.mpr fun item hitem => (item_phrase hread (hkept item hitem)).2.1)

/-- What some items take of a text is read as these items, up to places. -/
theorem items_phrase (hread : readText text = .ok items) (hkept : ∀ item ∈ kept, item ∈ items) :
    Phrase Syntax.program (cutAll text kept) fun trees =>
      trees.map (Spanned.unplaced ItemTree.unplaced) =
        kept.map (Spanned.unplaced ItemTree.unplaced) := by
  have hall : Phrase (.many Syntax.item) (cutAll text kept) (List.Forall₂ (fun item tree =>
      tree.unplaced ItemTree.unplaced = item.unplaced ItemTree.unplaced) kept) :=
    .many (fun item hitem => (item_phrase hread (hkept item hitem)).2.2)
      (Or.inr fun item hitem => (item_phrase hread (hkept item hitem)).2.1)
  refine hall.imp fun trees htrees => ?_
  clear hkept hall
  induction htrees with
  | nil => rfl
  | cons hitem _ ih => rw [List.map_cons, List.map_cons, hitem, ih]

end Kept

/-- A text that is a phrase of items is read as these items, up to places. -/
theorem exists_read_phrase {s : String} {P : List (Spanned ItemTree) → Prop}
    (h : Phrase Syntax.program s P) :
    ∃ items trees, readText s.toList = .ok items ∧ P trees ∧
      items.map (Spanned.unplaced ItemTree.unplaced) =
        trees.map (Spanned.unplaced ItemTree.unplaced) := by
  obtain ⟨ts, trees, hreads, hderives, htrees⟩ := h
  have hunplaced := hreads.map_unplaced
  obtain ⟨us, q, hsplit, rfl⟩ := hreads {} [] (Or.inr rfl)
  have hlexed := hsplit.from_eq
  rw [List.append_nil, Lexed.from.eq_def q] at hlexed
  have hplaces : (us.map Token.unplaced).map Token.unplaced =
      (Lexed.ofText s.toList).tokens.map Token.unplaced := by
    rw [hunplaced, Lexed.ofText, hlexed]
    simp
  have hunplaces : Unplaces Syntax.program (List.map (Spanned.unplaced ItemTree.unplaced)) :=
    .many .item
  obtain ⟨items, hitems, hsame⟩ := hunplaces.derives hplaces hderives
  refine ⟨items, trees, read_text_eq_ok.mpr ⟨?_, Reference.derives_program_iff.mpr hitems⟩, htrees,
    hsame.symm⟩
  rw [Lexed.ofText, hlexed]

end MirAudit.Source
