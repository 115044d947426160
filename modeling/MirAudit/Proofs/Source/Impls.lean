import MirAudit.Proofs.Source.Identities

/-!
# Impls in accepted texts

A program keeps an impl under its trait and type, where a second one is rejected, and under its own
identity, where it replaces an earlier one. The identity is printed from the type and the path of the
trait, without the crate of the trait. So of two impls for one type, of traits with the same path in
different crates, only the later one is listed; see `impls_listed_iff`.
-/

namespace MirAudit.Source

open Registration

/-- The item is an impl. -/
def isImpl (item : Spanned ItemTree) : Bool :=
  match item.value with
  | .impl _ _ _ => true
  | _ => false

/-- The item declares the impl. -/
inductive DeclaresImpl (l : Loader) : Spanned ItemTree → TraitImpl → Prop
  | of_impl {region path selfTree methods traitDef selfTy} :
      lowerDef l.scope path = .ok traitDef → selfTree.lower l.scope = .ok selfTy →
      DeclaresImpl l ⟨.impl path selfTree methods, region⟩
        (implOf l region traitDef selfTy methods)

/-- The type and the path of the trait of an impl. -/
def implHeading (impl : TraitImpl) : Heading :=
  .impl impl.selfTy impl.traitDef.path

section Items

variable {l : Loader} {item : Spanned ItemTree} {items : List (Spanned ItemTree)}
  {rss : List (List Registration)} {impl other : TraitImpl} {impls : List TraitImpl}

/-- Behind its functions, an item registers an impl exactly if it is one. -/
theorem Enlists.declares_impl {fns : List FnDecl} {decl? : Option Registration}
    (h : Enlists l item fns decl?) :
    (isImpl item = true ∧ ∃ impl, decl?.bind impl? = some impl ∧ DeclaresImpl l item impl) ∨
      isImpl item = false ∧ decl?.bind impl? = none := by
  cases h with
  | impl htrait hself => exact Or.inl ⟨rfl, _, rfl, .of_impl htrait hself⟩
  | crate | externCrate | externFn | struct | trait | fn => exact Or.inr ⟨rfl, rfl⟩

/-- The impls that are registered are those of the items, in order. -/
theorem forall_declares_impl (h : items.mapM (registrations l) = .ok rss) :
    List.Forall₂ (DeclaresImpl l) (items.filter isImpl) (rss.flatten.filterMap impl?) := by
  rw [Outcome.map_m_eq_ok] at h
  induction h with
  | nil => exact .nil
  | cons hrs _ ih =>
      obtain ⟨fns, entry, decl?, henlists, rfl⟩ := exists_enlists hrs
      rw [List.flatten_cons, List.filterMap_append,
        filter_map_fns_append (fun _ _ => rfl) fns entry decl?]
      rcases henlists.declares_impl with ⟨himpl, impl, hdecl, hdeclares⟩ | ⟨hother, hdecl⟩
      · rw [List.filter_cons_of_pos himpl, hdecl]
        exact .cons hdeclares ih
      · rw [List.filter_cons_of_neg (Bool.eq_false_iff.mp hother), hdecl]
        exact ih

/-- An item declares at most one impl. -/
theorem DeclaresImpl.unique (h : DeclaresImpl l item impl) (hother : DeclaresImpl l item other) :
    impl = other := by
  cases h with
  | of_impl htrait hself =>
      cases hother with
      | of_impl htrait' hself' =>
          obtain rfl := Except.ok.inj (htrait.symm.trans htrait')
          obtain rfl := Except.ok.inj (hself.symm.trans hself')
          rfl

/-- Behind its functions, an item registers the impl that it declares. -/
theorem Enlists.mem_impls_iff {fns : List FnDecl} {decl? : Option Registration}
    (h : Enlists l item fns decl?) :
    impl ∈ (decl?.bind impl?).toList ↔ DeclaresImpl l item impl := by
  rcases h.declares_impl with ⟨-, known, hdecl, hknown⟩ | ⟨hother, hdecl⟩
  · rw [hdecl, Option.toList_some, List.mem_singleton]
    constructor
    · rintro rfl
      exact hknown
    · exact fun hdeclares => hdeclares.unique hknown
  · rw [hdecl, Option.toList_none]
    refine ⟨fun hmem => absurd hmem List.not_mem_nil, fun hdeclares => ?_⟩
    cases hdeclares
    cases hother

/-- The impls that the items of a text register are those that they declare. -/
theorem mem_impls_iff (h : items.mapM (registrations l) = .ok rss) :
    impl ∈ rss.flatten.filterMap impl? ↔ ∃ item ∈ items, DeclaresImpl l item impl := by
  rw [Outcome.map_m_eq_ok] at h
  induction h with
  | nil => simp
  | cons hrs _ ih =>
      obtain ⟨fns, entry, decl?, henlists, rfl⟩ := exists_enlists hrs
      rw [List.flatten_cons, List.filterMap_append, List.mem_append, ih, List.exists_mem_cons_iff,
        filter_map_fns_append (fun _ _ => rfl) fns entry decl?, henlists.mem_impls_iff]

theorem DeclaresImpl.heading (h : DeclaresImpl l item impl) :
    heading? l item = some (implHeading impl) := by
  cases h with
  | of_impl htrait hself =>
      simp only [heading?, htrait, hself]
      rfl

/-- An impl has the identity that its heading stands for. -/
theorem DeclaresImpl.def_id (h : DeclaresImpl l item impl) :
    impl.defId = l.scope.localDef (implHeading impl).path := by
  cases h with
  | of_impl => rfl

/-- The headings and the identities of impls. -/
theorem impl_headings (h : List.Forall₂ (DeclaresImpl l) items impls) :
    items.filterMap (heading? l) = impls.map implHeading ∧
      impls.map TraitImpl.defId =
        (impls.map implHeading).map fun heading => l.scope.localDef heading.path := by
  induction h with
  | nil => exact ⟨rfl, rfl⟩
  | cons hdeclares _ ih =>
      obtain ⟨hheadings, hids⟩ := ih
      rw [List.filterMap_cons_some hdeclares.heading, hheadings, List.map_cons, List.map_cons,
        List.map_cons, hdeclares.def_id, hids]
      exact ⟨rfl, rfl⟩

/-- Impls have distinct identities exactly if they have distinct headings. -/
theorem nodup_impl_ids_iff (hl : l.scope.Legible) (htypes : l.scope.types = [])
    (hitems : ∀ item ∈ items, item.value.Legible)
    (h : List.Forall₂ (DeclaresImpl l) items impls) :
    (impls.map TraitImpl.defId).Nodup ↔ (impls.map implHeading).Nodup := by
  obtain ⟨hheadings, hids⟩ := impl_headings h
  rw [hids, ← hheadings]
  exact nodup_heading_ids_iff (headings_legible hl htypes hitems)

end Items

/-- Every impl of an accepted text is found by its trait and type. All of them are listed, each once
and in order, exactly if no two agree in their type and the path of their trait; and exactly then
each is found under its identity. -/
theorem impls_listed_iff {file : Option String} {text : List Char} {p : Program}
    (h : loadText file text = .ok p) :
    ∃ items impls, readText text = .ok items ∧
      List.Forall₂ (DeclaresImpl (loaderOf file items)) (items.filter isImpl) impls ∧
      (∀ impl ∈ impls, p.findImpl impl.traitDef impl.selfTy = some impl) ∧
      (p.impls.values = impls ↔ (impls.map implHeading).Nodup) ∧
      ((∀ impl ∈ impls, Program.require p.impls impl.defId = .ok impl) ↔
        (impls.map implHeading).Nodup) := by
  obtain ⟨items, rss, hread, hp⟩ := entered_of_text h
  have hdeclares := forall_declares_impl hp.built
  have hids := nodup_impl_ids_iff hp.scope rfl
    (fun item hitem => hp.legible item (List.mem_of_mem_filter hitem)) hdeclares
  -- the keys by trait and type are always distinct, and so are the impls themselves
  have himpls : (rss.flatten.filterMap impl?).Nodup := hp.consistent.impls.of_map _
  refine ⟨items, _, hread, hdeclares, fun impl himpl => ?_, ?_, ?_⟩
  · exact (hp.holds.findImpl _ _ impl).mpr ⟨himpl, rfl⟩
  · rw [← hids, hp.enters.impls]
    exact Table.values_insert_all_eq_iff
  · simp only [Program.require_eq_ok]
    rw [← hids, hp.enters.impls]
    exact Table.get_insert_all_iff himpls

/-- Two impls for one type, of traits of different names. -/
def twoImplsText : String :=
  "trait Show \x7b \x7d
trait Hide \x7b \x7d
impl Show for i32 \x7b \x7d
impl Hide for i32 \x7b \x7d
"

set_option maxRecDepth 20000 in
/-- Both impls are listed in order. -/
theorem impls_listed_two :
    ∃ p items impls, loadText none twoImplsText.toList = .ok p ∧
      readText twoImplsText.toList = .ok items ∧
      List.Forall₂ (DeclaresImpl (loaderOf none items)) (items.filter isImpl) impls ∧
      (impls.map implHeading).Nodup ∧ p.impls.values = impls ∧ impls.length = 2 ∧
      ∀ impl ∈ impls, Program.require p.impls impl.defId = .ok impl ∧
        p.findImpl impl.traitDef impl.selfTy = some impl := by
  obtain ⟨p, hload, -⟩ : ∃ p, loadText none twoImplsText.toList = .ok p ∧
      decide (p.impls.values.length = 2) = true :=
    exists_of_load_chars (by decide +kernel)
  obtain ⟨read, hread, htest⟩ : ∃ items, readText twoImplsText.toList = .ok items ∧
      decide ((items.filter isImpl).length = 2 ∧
        ((items.filter isImpl).filterMap (heading? (loaderOf none items))).Nodup) = true :=
    exists_of_read_chars (by decide +kernel)
  obtain ⟨hlength, hheadings⟩ := of_decide_eq_true htest
  obtain ⟨items, impls, hitems, hdeclares, hfound, hlisted, hrequired⟩ := impls_listed_iff hload
  obtain rfl := Except.ok.inj (hread.symm.trans hitems)
  rw [(impl_headings hdeclares).1] at hheadings
  exact ⟨p, _, impls, hload, hread, hdeclares, hheadings, hlisted.mpr hheadings,
    hdeclares.length_eq.symm.trans hlength,
    fun impl himpl => ⟨hrequired.mpr hheadings impl himpl, hfound impl himpl⟩⟩

/-- Two impls for one type, of traits of the same name in different crates. -/
def crossedImplsText : String :=
  "extern crate ext \x7b \x7d
trait Show \x7b \x7d
impl Show for i32 \x7b \x7d
impl ext::Show for i32 \x7b \x7d
"

set_option maxRecDepth 20000 in
/-- The first impl is found by its trait and type, but only the second one is listed, and it is found
under the identity of the first. -/
theorem crossed_impls_collide :
    ∃ p items first second, loadText none crossedImplsText.toList = .ok p ∧
      readText crossedImplsText.toList = .ok items ∧ (items.filter isImpl).length = 2 ∧
      p.findImpl ⟨"main", "Show"⟩ (.scalar "i32") = some first ∧
      p.findImpl ⟨"ext", "Show"⟩ (.scalar "i32") = some second ∧ first ≠ second ∧
      p.impls.values = [second] ∧ Program.require p.impls first.defId = .ok second := by
  obtain ⟨p, hload, htest⟩ : ∃ p, loadText none crossedImplsText.toList = .ok p ∧
      (p.findImpl ⟨"main", "Show"⟩ (.scalar "i32")).any (fun first =>
        (p.findImpl ⟨"ext", "Show"⟩ (.scalar "i32")).any fun second =>
          decide (first ≠ second ∧ p.impls.values = [second] ∧
            p.impls.get? first.defId = some second)) = true :=
    exists_of_load_chars (by decide +kernel)
  obtain ⟨items, hread, hlength⟩ : ∃ items, readText crossedImplsText.toList = .ok items ∧
      decide ((items.filter isImpl).length = 2) = true :=
    exists_of_read_chars (by decide +kernel)
  rw [Option.any_eq_true] at htest
  obtain ⟨first, hfirst, hrest⟩ := htest
  rw [Option.any_eq_true] at hrest
  obtain ⟨second, hsecond, hall⟩ := hrest
  obtain ⟨hne, hlisted, hstored⟩ := of_decide_eq_true hall
  exact ⟨p, items, first, second, hload, hread, of_decide_eq_true hlength, hfirst, hsecond, hne,
    hlisted, Program.require_eq_ok.mpr hstored⟩

end MirAudit.Source
