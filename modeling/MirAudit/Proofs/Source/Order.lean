import MirAudit.Proofs.Source.Reference
import MirAudit.Proofs.Source.Registrations

/-!
# The order of items

The items of a text may stand in any order. The names of the crates are collected before any item is
loaded, and what the items register is looked up by identity. So a text with the same items in
another order is accepted too, and its program answers the same: `load_text_of_perm`.
-/

namespace MirAudit.Source

/-! ## Crates -/

/-- The name that an item gives to the local crate. -/
def crateName? (item : Spanned ItemTree) : Option String :=
  match item.value with
  | .crate name => some name.string
  | _ => none

/-- The external crate that an item declares. -/
def externalName? (item : Spanned ItemTree) : Option String :=
  match item.value with
  | .externCrate name _ => some name.string
  | _ => none

theorem crate_name_unplaced (item : Spanned ItemTree) :
    crateName? (item.unplaced ItemTree.unplaced) = crateName? item := by
  obtain ⟨value, region⟩ := item
  cases value <;> rfl

theorem external_name_unplaced (item : Spanned ItemTree) :
    externalName? (item.unplaced ItemTree.unplaced) = externalName? item := by
  obtain ⟨value, region⟩ := item
  cases value <;> rfl

/-- A text may name its crate once. -/
theorem declared_crate_eq_ok {known found : Option String} {items : List (Spanned ItemTree)} :
    declaredCrate known items = .ok found ↔
      known.toList ++ items.filterMap crateName? = found.toList := by
  induction items generalizing known with
  | nil =>
      rw [declaredCrate, Outcome.pure_eq_ok, List.filterMap_nil, List.append_nil]
      cases known <;> cases found <;> simp
  | cons item items ih =>
      obtain ⟨value, region⟩ := item
      cases value with
      | crate name =>
          show (if known.isSome then throw _ else declaredCrate (some name.string) items) = _ ↔
            known.toList ++ name.string :: items.filterMap crateName? = _
          cases known with
          | none => exact ih
          | some first =>
              refine iff_of_false Outcome.not_throw_eq_ok fun h => ?_
              cases found <;> cases h
      | externCrate | externFn | struct | trait | impl | fn => exact ih

/-- The program with some external crates. -/
def withCrates (p : Program) (names : List String) : Program :=
  names.foldl (fun p name => (p.addExternalCrate name).2) p

/-- The external crates are loaded if none of them is the local one. -/
theorem run_load_crates_eq_ok {crate : String} {items : List (Spanned ItemTree)} {p q : Program}
    {u : Unit} : (loadCrates crate items).run p = .ok (u, q) ↔
      crate ∉ items.filterMap externalName? ∧
        withCrates p (items.filterMap externalName?) = q := by
  induction items generalizing p with
  | nil =>
      show Except.ok ((), p) = Except.ok (u, q) ↔ _
      simp [withCrates]
  | cons item items ih =>
      obtain ⟨value, region⟩ := item
      cases value with
      | externCrate name signatures =>
          show StateT.run (if name.string = crate then throw _ else _) p = _ ↔
            crate ∉ name.string :: items.filterMap externalName? ∧ _
          by_cases hname : name.string = crate
          · rw [if_pos hname, hname]
            exact iff_of_false Outcome.not_throw_eq_ok fun h => h.1 List.mem_cons_self
          · rw [if_neg hname, LoadStep.run_bind_eq_ok]
            simp only [LoadStep.run_modify_eq_ok, ih, List.mem_cons, not_or]
            constructor
            · intro h
              obtain ⟨_, _, rfl, hrest, rfl⟩ := h
              exact ⟨⟨fun heq => hname heq.symm, hrest⟩, rfl⟩
            · intro h
              obtain ⟨⟨_, hrest⟩, hq⟩ := h
              exact ⟨(), _, rfl, hrest, hq⟩
      | crate | externFn | struct | trait | impl | fn => exact ih

section Known

variable {crate name other : String} {p : Program}

theorem mem_add_external_crate (hp : p.crateName? = some crate) (hname : name ≠ crate) :
    other ∈ (p.addExternalCrate name).2.externals.map Crate.name ↔
      other ∈ p.externals.map Crate.name ∨ other = name := by
  unfold Program.addExternalCrate
  cases hfind : p.findCrate name with
  | none => simp
  | some known =>
      refine (or_iff_left_of_imp ?_).symm
      rintro rfl
      have hknown := List.mem_of_find?_eq_some hfind
      have hsame : known.name = other := by simpa using List.find?_some hfind
      rw [Program.localCrate?, hp, List.mem_append] at hknown
      rcases hknown with hlocal | hexternal
      · obtain rfl := List.mem_singleton.mp hlocal
        exact absurd hsame.symm hname
      · exact List.mem_map.mpr ⟨known, hexternal, hsame⟩

theorem crate_name_add_external_crate :
    (p.addExternalCrate name).2.crateName? = p.crateName? := by
  unfold Program.addExternalCrate
  cases p.findCrate name <;> rfl

/-- The external crates are those that were there and those that were declared. -/
theorem mem_with_crates {names : List String} (hp : p.crateName? = some crate)
    (hnames : crate ∉ names) :
    other ∈ (withCrates p names).externals.map Crate.name ↔
      other ∈ p.externals.map Crate.name ∨ other ∈ names := by
  induction names generalizing p with
  | nil => simp [withCrates]
  | cons name names ih =>
      obtain ⟨hname, hrest⟩ := not_or.mp (List.mem_cons.not.mp hnames)
      show other ∈ (withCrates (p.addExternalCrate name).2 names).externals.map Crate.name ↔ _
      rw [ih (crate_name_add_external_crate.trans hp) hrest,
        mem_add_external_crate hp (Ne.symm hname), List.mem_cons, or_assoc]

end Known

/-! ## What the items share -/

section Shared

variable (file : Option String) (items : List (Spanned ItemTree))

/-- The local crate of some items. -/
def localCrateOf : String :=
  (items.filterMap crateName?).head?.getD defaultCrate

/-- The program of the crates of some items, before anything is registered. -/
def cratesOf : Program :=
  withCrates { crateName? := some (localCrateOf items) } (items.filterMap externalName?)

/-- What some items share. -/
def loaderOf : Loader :=
  ⟨file, ⟨localCrateOf items, localCrateOf items :: (cratesOf items).externals.map Crate.name, []⟩⟩

/-- The crates of some items do not conflict. -/
structure CratesFit : Prop where
  once : (items.filterMap crateName?).length ≤ 1
  apart : localCrateOf items ∉ items.filterMap externalName?

end Shared

section Items

variable {file file' : Option String} {items items' middle : List (Spanned ItemTree)} {p : Program}

/-- A crate is declared once at most, and the first declaration counts. -/
theorem declared_crate_eq_ok_iff {found : Option String} :
    declaredCrate none items = .ok found ↔
      (items.filterMap crateName?).length ≤ 1 ∧ (items.filterMap crateName?).head? = found := by
  rw [declared_crate_eq_ok]
  show items.filterMap crateName? = found.toList ↔ _
  rcases items.filterMap crateName? with _ | ⟨name, _ | ⟨other, names⟩⟩ <;> cases found <;> simp

/-- Items are loaded exactly if their crates fit together and what they register can be added. -/
theorem load_items_eq_ok :
    loadItems file items = .ok p ↔ CratesFit items ∧
      ∃ rss, items.mapM (registrations (loaderOf file items)) = .ok rss ∧
        AddsAll (cratesOf items) p rss.flatten := by
  unfold loadItems
  simp only [Outcome.bind_eq_ok, Outcome.pure_eq_ok, Prod.exists, declared_crate_eq_ok_iff,
    run_load_crates_eq_ok]
  constructor
  · intro h
    obtain ⟨_, ⟨honce, rfl⟩, _, _, ⟨hapart, rfl⟩, ⟨⟩, _, hrun, rfl⟩ := h
    exact ⟨⟨honce, hapart⟩, (run_for_m_eq_ok fun _ _ _ => run_load_item_eq_ok).mp hrun⟩
  · intro h
    obtain ⟨⟨honce, hapart⟩, hadds⟩ := h
    exact ⟨_, ⟨honce, rfl⟩, (), _, ⟨hapart, rfl⟩, (), p,
      (run_for_m_eq_ok fun _ _ _ => run_load_item_eq_ok).mpr hadds, rfl⟩

/-- The crates that paths may start with. -/
theorem CratesFit.mem_crates (h : CratesFit items) {name : String} :
    name ∈ (loaderOf file items).scope.crates ↔
      name = localCrateOf items ∨ name ∈ items.filterMap externalName? := by
  have hlocal : ({ crateName? := some (localCrateOf items) } : Program).crateName? =
      some (localCrateOf items) := rfl
  show name ∈ localCrateOf items :: (cratesOf items).externals.map Crate.name ↔ _
  rw [List.mem_cons, cratesOf, mem_with_crates hlocal h.apart]
  exact or_congr_right (or_iff_right List.not_mem_nil)

/-- Before anything is registered, the program has its crates and nothing else. -/
theorem CratesFit.crates_only (h : CratesFit items) :
    CratesOnly (localCrateOf items) (cratesOf items) := by
  have hempty : CratesOnly (localCrateOf items) { crateName? := some (localCrateOf items) } :=
    ⟨rfl, by simp⟩
  exact load_crates_only hempty (run_load_crates_eq_ok.mpr ⟨h.apart, rfl⟩)

theorem CratesFit.holds_nothing (h : CratesFit items) :
    (cratesOf items).Holds (localCrateOf items) [] :=
  Program.holds_nothing h.crates_only.only

/-- What the program of some items holds. -/
theorem holds_of_load_items (h : loadItems file items = .ok p) :
    ∃ rss, items.mapM (registrations (loaderOf file items)) = .ok rss ∧
      Consistent (localCrateOf items) rss.flatten ∧ p.Holds (localCrateOf items) rss.flatten := by
  obtain ⟨hcrates, rss, hrss, hadds⟩ := load_items_eq_ok.mp h
  have hall := (hcrates.holds_nothing.exists_adds_all_iff (consistent_nil _)).mp ⟨p, hadds⟩
  have hp := hcrates.holds_nothing.adds_all hadds
  rw [List.append_nil] at hall hp
  exact ⟨rss, hrss, hall, hp⟩

/-- Items are accepted exactly if their crates fit and what they register does not conflict. -/
theorem exists_load_items_iff :
    (∃ p, loadItems file items = .ok p) ↔ CratesFit items ∧
      ∃ rss, items.mapM (registrations (loaderOf file items)) = .ok rss ∧
        Consistent (localCrateOf items) rss.flatten := by
  constructor
  · intro h
    obtain ⟨p, hload⟩ := h
    obtain ⟨rss, hrss, hall, -⟩ := holds_of_load_items hload
    exact ⟨(load_items_eq_ok.mp hload).1, rss, hrss, hall⟩
  · intro h
    obtain ⟨hcrates, rss, hrss, hall⟩ := h
    rw [← List.append_nil rss.flatten] at hall
    obtain ⟨p, hadds⟩ :=
      (hcrates.holds_nothing.exists_adds_all_iff (consistent_nil _)).mpr hall
    exact ⟨p, load_items_eq_ok.mpr ⟨hcrates, rss, hrss, hadds⟩⟩

/-- Other items are loaded too if their crates fit, the local crate is the same and they register the
same up to spans, in any order. -/
theorem load_items_agree (h : loadItems file items = .ok p) (hcrates' : CratesFit items')
    (hlocal : localCrateOf items' = localCrateOf items)
    (hregistrations : ∀ rss, items.mapM (registrations (loaderOf file items)) = .ok rss →
      ∃ rss', items'.mapM (registrations (loaderOf file' items')) = .ok rss' ∧
        (rss.flatten.map Registration.withoutSpans).Perm
          (rss'.flatten.map Registration.withoutSpans)) :
    ∃ q, loadItems file' items' = .ok q ∧ p.SameUpToSpans q := by
  obtain ⟨rss, hrss, hall, hp⟩ := holds_of_load_items h
  obtain ⟨rss', hrss', hsame⟩ := hregistrations rss hrss
  -- what can be registered together does not depend on the order
  have hall' := consistent_without_spans.mp ((consistent_without_spans.mpr hall).perm hsame)
  rw [← hlocal] at hall'
  obtain ⟨q, hq⟩ := exists_load_items_iff.mpr ⟨hcrates', rss', hrss', hall'⟩
  obtain ⟨_, hfound, -, hq'⟩ := holds_of_load_items hq
  obtain rfl := Except.ok.inj (hrss'.symm.trans hfound)
  rw [hlocal] at hq'
  exact ⟨q, hq, hp.same_up_to_spans hq' hsame⟩

/-! ## Another order -/

/-- Lists whose images agree up to order are lists whose images agree, one of them in another
order. -/
theorem exists_perm_map_eq {α β : Type} {u : α → β} {as as' : List α}
    (h : (as.map u).Perm (as'.map u)) : ∃ middle, as.Perm middle ∧ as'.map u = middle.map u := by
  have hself : List.Forall₂ (fun b a => b = u a) (as.map u) as :=
    List.forall₂_map_left_iff.mpr (List.forall₂_same.mpr fun _ _ => rfl)
  obtain ⟨middle, hall, hmiddle⟩ := List.perm_comp_forall₂ h.symm hself
  refine ⟨middle, hmiddle.symm, ?_⟩
  rwa [← List.forall₂_eq_eq_eq, List.forall₂_map_right_iff]

section Reordered

variable (hperm : (items.map (Spanned.unplaced ItemTree.unplaced)).Perm
  (items'.map (Spanned.unplaced ItemTree.unplaced)))
include hperm

/-- A part of the items that does not depend on places is there in any order. -/
theorem filter_map_reordered {β : Type} {part : Spanned ItemTree → Option β}
    (hpart : ∀ item, part (item.unplaced ItemTree.unplaced) = part item) :
    (items.filterMap part).Perm (items'.filterMap part) := by
  have hforget (list : List (Spanned ItemTree)) :
      (list.map (Spanned.unplaced ItemTree.unplaced)).filterMap part = list.filterMap part := by
    rw [List.filterMap_map]
    exact congrArg (List.filterMap · list) (funext hpart)
  rw [← hforget items, ← hforget items']
  exact hperm.filterMap part

/-- The local crate is the same in any order. -/
theorem local_crate_reordered (honce : (items.filterMap crateName?).length ≤ 1) :
    localCrateOf items' = localCrateOf items := by
  have hnames := filter_map_reordered hperm crate_name_unplaced
  unfold localCrateOf
  rcases hdeclared : items.filterMap crateName? with _ | ⟨name, _ | ⟨other, names⟩⟩
  · rw [hdeclared] at hnames
    rw [hnames.nil_eq]
  · rw [hdeclared] at hnames
    rw [List.perm_singleton.mp hnames.symm]
  · rw [hdeclared] at honce
    simp at honce

/-- The crates fit in any order. -/
theorem CratesFit.reordered (h : CratesFit items) : CratesFit items' where
  once := (filter_map_reordered hperm crate_name_unplaced).length_eq ▸ h.once
  apart := by
    have hexternal := filter_map_reordered hperm external_name_unplaced
    rw [local_crate_reordered hperm h.once, ← hexternal.mem_iff]
    exact h.apart

/-- Names denote the same in any order. -/
theorem loader_reordered (h : CratesFit items) :
    (loaderOf file items).scope.Alike (loaderOf file' items').scope := by
  have hlocal := local_crate_reordered hperm h.once
  have hexternal := filter_map_reordered hperm external_name_unplaced
  refine ⟨⟨hlocal, fun name => ?_⟩, rfl⟩
  rw [h.mem_crates, (h.reordered hperm).mem_crates, hlocal, hexternal.mem_iff]

/-- The same is registered in any order, up to spans. -/
theorem registrations_reordered (h : CratesFit items) {rss : List (List Registration)}
    (hrss : items.mapM (registrations (loaderOf file items)) = .ok rss) :
    ∃ rss', items'.mapM (registrations (loaderOf file' items')) = .ok rss' ∧
      (rss.flatten.map Registration.withoutSpans).Perm
        (rss'.flatten.map Registration.withoutSpans) := by
  obtain ⟨middle, hmiddle, hsame⟩ := exists_perm_map_eq hperm
  obtain ⟨moved, hmoved, hrssPerm⟩ := Outcome.map_m_perm hmiddle hrss
  have hs : (loaderOf file items).scope.Alike (loaderOf file' items').scope :=
    loader_reordered hperm h
  obtain ⟨rss', hrss', hforget⟩ := map_m_alike hsame
    (fun _ _ hitem _ => registrations_alike hs hitem) hmoved
  refine ⟨rss', hrss', ?_⟩
  rw [hforget]
  exact hrssPerm.flatten.map _

/-- Items in another order are loaded too, as a program that agrees up to spans. -/
theorem load_items_reordered (h : loadItems file items = .ok p) :
    ∃ q, loadItems file' items' = .ok q ∧ p.SameUpToSpans q := by
  obtain ⟨hcrates, -⟩ := load_items_eq_ok.mp h
  exact load_items_agree h (hcrates.reordered hperm) (local_crate_reordered hperm hcrates.once)
    fun _ => registrations_reordered hperm hcrates

end Reordered

end Items

/-! ## Texts -/

theorem forall_mem_exists_iff {α β : Type} {R : α → β → Prop} {as : List α} :
    (∀ a ∈ as, ∃ b, R a b) ↔ ∃ bs, List.Forall₂ R as bs := by
  induction as with
  | nil => exact ⟨fun _ => ⟨[], .nil⟩, fun _ _ ha => absurd ha List.not_mem_nil⟩
  | cons a as ih =>
      rw [List.forall_mem_cons, ih]
      constructor
      · intro h
        obtain ⟨⟨b, hb⟩, bs, hbs⟩ := h
        exact ⟨b :: bs, .cons hb hbs⟩
      · intro h
        obtain ⟨_, _ | ⟨hb, hbs⟩⟩ := h
        exact ⟨⟨_, hb⟩, _, hbs⟩

/-- The tokens are, up to places, those of some items one after another. -/
structure CutsInto (ts : List Token) (chunks : List (List Token)) : Prop where
  tokens : ts.map Token.unplaced = chunks.flatten.map Token.unplaced
  item : ∀ chunk ∈ chunks, ∃ tree, Gram.Derives Reference.definition Reference.item chunk tree

section Texts

variable {file file' : Option String} {text text' : List Char} {items : List (Spanned ItemTree)}
  {p : Program}

/-- An accepted text consists of items. -/
theorem exists_cuts_into (h : readText text = .ok items) :
    ∃ chunks, CutsInto (Lexed.ofText text).tokens chunks := by
  obtain ⟨chunks, hchunks, htokens⟩ := Gram.derives_many_iff.mp (read_text_eq_ok.mp h).2
  exact ⟨chunks, by rw [htokens], forall_mem_exists_iff.mpr ⟨items, hchunks⟩⟩

/-- Tokens of items one after another are read as these items, up to places. -/
theorem exists_read_text {chunks : List (List Token)} {trees : List (Spanned ItemTree)}
    (hending : (Lexed.ofText text).ending = .endOfText)
    (hchunks : List.Forall₂ (Gram.Derives Reference.definition Reference.item) chunks trees)
    (htokens : (Lexed.ofText text).tokens.map Token.unplaced =
      chunks.flatten.map Token.unplaced) :
    ∃ items, readText text = .ok items ∧
      items.map (Spanned.unplaced ItemTree.unplaced) =
        trees.map (Spanned.unplaced ItemTree.unplaced) := by
  have hprogram : Gram.Derives Reference.definition Reference.program chunks.flatten trees :=
    Gram.derives_many_iff.mpr ⟨chunks, hchunks, rfl⟩
  have hunplaces : Unplaces Syntax.program (List.map (Spanned.unplaced ItemTree.unplaced)) :=
    .many .item
  obtain ⟨items, hitems, hsame⟩ :=
    hunplaces.derives htokens.symm (Reference.derives_program_iff.mp hprogram)
  exact ⟨items, read_text_eq_ok.mpr ⟨hending, Reference.derives_program_iff.mpr hitems⟩, hsame.symm⟩

/-- A text is cut into items. A text with the tokens of the same items in any order is accepted too.
Whatever was resolved in either program, both have the same functions and impls up to spans and the
same entry point, resolution answers the same or fails in the same way, and the bodies are the
same. -/
theorem load_text_reordered (h : loadText file text = .ok p) :
    (∃ chunks, CutsInto (Lexed.ofText text).tokens chunks) ∧
    ∀ chunks chunks' file' text', CutsInto (Lexed.ofText text).tokens chunks →
      chunks.Perm chunks' → (Lexed.ofText text').ending = .endOfText →
      (Lexed.ofText text').tokens.map Token.unplaced = chunks'.flatten.map Token.unplaced →
      ∃ q, loadText file' text' = .ok q ∧
        ∀ r s, p.Resolving r → q.Resolving s → r.SameUpToSpans s ∧
          (∀ id args, (s.resolve id args).1 = (r.resolve id args).1) ∧
          ∀ i, s.bodyOf i = r.bodyOf i := by
  obtain ⟨items, hread, hitems⟩ := load_text_eq_ok.mp h
  refine ⟨exists_cuts_into hread, ?_⟩
  intro chunks chunks' file' text' hcuts hperm hending htokens
  obtain ⟨trees, hchunks⟩ := forall_mem_exists_iff.mp hcuts.item
  obtain ⟨trees', hchunks', htrees⟩ := List.perm_comp_forall₂ hperm.symm hchunks
  obtain ⟨known, hknown, hsame⟩ :=
    exists_read_text (read_text_eq_ok.mp hread).1 hchunks hcuts.tokens
  obtain rfl := Except.ok.inj (hread.symm.trans hknown)
  obtain ⟨items', hread', hsame'⟩ := exists_read_text hending hchunks' htokens
  have hreordered : (items.map (Spanned.unplaced ItemTree.unplaced)).Perm
      (items'.map (Spanned.unplaced ItemTree.unplaced)) := by
    rw [hsame, hsame']
    exact (htrees.map _).symm
  obtain ⟨q, hq, hagree⟩ := load_items_reordered hreordered hitems
  refine ⟨q, load_text_eq_ok.mpr ⟨items', hread', hq⟩, fun r s hr hs => ?_⟩
  obtain ⟨l, -, hloaded⟩ := loaded_of_items hitems
  obtain ⟨l', -, hloaded'⟩ := loaded_of_items hq
  have hinterned := Program.InternedFrom.of_resolving hr hloaded.interned hloaded.coherent
  have hinterned' := Program.InternedFrom.of_resolving hs hloaded'.interned hloaded'.coherent
  have hafter := hagree.interned hinterned hinterned'
  exact ⟨hafter, hagree.resolve_interned hinterned hinterned' hloaded.coherent hloaded'.coherent,
    hafter.body_of⟩

/-- Tokens that are read as one item are derived as this item. -/
theorem exists_item_of_read {ts : List Token}
    (h : (Syntax.readItems ts).toOption.any (fun items => items.length == 1) = true) :
    ∃ tree, Gram.Derives Reference.definition Reference.item ts tree := by
  cases hitems : Syntax.readItems ts with
  | error rest =>
      rw [hitems] at h
      cases h
  | ok items =>
      rw [hitems] at h
      obtain ⟨tree, rfl⟩ := List.length_eq_one_iff.mp (beq_iff_eq.mp h)
      obtain ⟨_, hparts, rfl⟩ :=
        Gram.derives_many_iff.mp (Reference.read_items_eq_ok_iff.mp hitems)
      obtain ⟨part, _, hpart, hnone, rfl⟩ := List.forall₂_cons_right_iff.mp hparts
      obtain rfl := List.forall₂_nil_right_iff.mp hnone
      exact ⟨tree, by simpa using hpart⟩

end Texts

/-- The name of the local crate, a trait, and an impl of it. -/
def shapeItems : List (List Char) :=
  ["crate demo;\n".toList,
   "trait Shape \x7b fn show(Self); \x7d\n".toList,
   "impl Shape for Dot \x7b fn show(Dot) \x7b
    let _0: (); let _1: Dot; bb0: \x7b return; \x7d \x7d \x7d\n".toList]

/-- The tokens of some items, each on its own. -/
def itemsTokens (items : List (List Char)) : List (List Token) :=
  items.map fun item => (Lexed.ofText item).tokens

set_option maxRecDepth 20000 in
/-- The items are accepted in either order, and the method of the trait goes to the impl. -/
theorem load_text_reordered_shape :
    ∃ p q, loadText none shapeItems.flatten = .ok p ∧
      loadText none shapeItems.reverse.flatten = .ok q ∧ p.SameUpToSpans q ∧
      (q.resolve ⟨"demo", "Shape::show"⟩ [.adt "Dot" []]).1 =
        .ok ⟨⟨"demo", "<Dot as Shape>::show"⟩, []⟩ := by
  -- what is tested is evaluated on the characters of the items
  obtain ⟨items, hshape, hload, hitems, htokens, hending, htokens'⟩ : ∃ items, shapeItems = items ∧
      (loadText none items.flatten).toOption.any (fun p =>
        decide ((p.resolve ⟨"demo", "Shape::show"⟩ [.adt "Dot" []]).1 =
          .ok ⟨⟨"demo", "<Dot as Shape>::show"⟩, []⟩)) = true ∧
      (∀ ts ∈ itemsTokens items,
        (Syntax.readItems ts).toOption.any (fun items => items.length == 1) = true) ∧
      (Lexed.ofText items.flatten).tokens.map Token.unplaced =
        (itemsTokens items).flatten.map Token.unplaced ∧
      (Lexed.ofText items.reverse.flatten).ending = .endOfText ∧
      (Lexed.ofText items.reverse.flatten).tokens.map Token.unplaced =
        (itemsTokens items.reverse).flatten.map Token.unplaced := by
    refine ⟨_, congrArg₂ List.cons String.toList_ofList (congrArg₂ List.cons String.toList_ofList
      (congrArg₂ List.cons String.toList_ofList rfl)), ?_⟩
    decide +kernel
  rw [hshape]
  obtain ⟨p, hload, htest⟩ := exists_of_load_any hload
  have hcuts : CutsInto (Lexed.ofText items.flatten).tokens (itemsTokens items) :=
    ⟨htokens, fun ts hts => exists_item_of_read (hitems ts hts)⟩
  have hperm : (itemsTokens items).Perm (itemsTokens items.reverse) :=
    items.reverse_perm.symm.map _
  obtain ⟨-, hreordered⟩ := load_text_reordered hload
  obtain ⟨q, hq, hagree⟩ := hreordered _ _ none _ hcuts hperm hending htokens'
  obtain ⟨hsame, hresolve, -⟩ := hagree p q .refl .refl
  exact ⟨p, q, hload, hq, hsame, (hresolve _ _).trans (of_decide_eq_true htest)⟩

end MirAudit.Source
