import MirAudit.Proofs.Source.Headings

/-!
# Identities in accepted texts

A program finds a declaration by its identity. In an accepted text a later struct or trait can have
the identity of an earlier item, and then the earlier one is listed still and found no more. Where no
two items share an identity, each is found as it was declared and every trait lists its methods:
`local_items_distinct_iff`.
-/

namespace MirAudit.Source

open Registration

/-! ## Methods of traits -/

/-- The functions that belong to traits are those that the traits list. -/
structure ListsMethods (rs : List Registration) : Prop where
  known : ∀ fn ∈ rs.filterMap fn?, ∀ id, fn.traitDef = some id →
    id ∈ (rs.filterMap trait?).map TraitDecl.defId
  listed : ∀ decl ∈ rs.filterMap trait?,
    ((rs.filterMap fn?).filter fun fn => fn.traitDef = some decl.defId).map FnDecl.defId =
      decl.methods.map fun method => ⟨decl.defId.crate, methodPath decl.defId.path method⟩

namespace ListsMethods

variable {rs more : List Registration}

/-- No function belongs to a trait that is not there. -/
theorem filter_eq_nil (h : ListsMethods rs) {id : DefId}
    (hid : id ∉ (rs.filterMap trait?).map TraitDecl.defId) :
    ((rs.filterMap fn?).filter fun fn => fn.traitDef = some id) = [] :=
  List.filter_eq_nil_iff.mpr fun fn hfn htrait =>
    hid (h.known fn hfn id (of_decide_eq_true htrait))

theorem nothing : ListsMethods [] where
  known _ hfn := absurd hfn List.not_mem_nil
  listed _ hdecl := absurd hdecl List.not_mem_nil

theorem append (h : ListsMethods rs) (hmore : ListsMethods more)
    (hdistinct : (((rs ++ more).filterMap trait?).map TraitDecl.defId).Nodup) :
    ListsMethods (rs ++ more) := by
  rw [List.filterMap_append, List.map_append] at hdistinct
  obtain ⟨-, -, hapart⟩ := List.nodup_append.mp hdistinct
  refine ⟨fun fn hfn id htrait => ?_, fun decl hdecl => ?_⟩
  · rw [List.filterMap_append, List.map_append, List.mem_append]
    rw [List.filterMap_append, List.mem_append] at hfn
    exact hfn.imp (h.known fn · id htrait) (hmore.known fn · id htrait)
  · rw [List.filterMap_append, List.filter_append, List.map_append]
    rw [List.filterMap_append, List.mem_append] at hdecl
    rcases hdecl with hdecl | hdecl
    · have hid : decl.defId ∈ (rs.filterMap trait?).map TraitDecl.defId :=
        List.mem_map_of_mem hdecl
      rw [hmore.filter_eq_nil fun hother => hapart _ hid _ hother rfl, List.map_nil,
        List.append_nil, h.listed decl hdecl]
    · have hid : decl.defId ∈ (more.filterMap trait?).map TraitDecl.defId :=
        List.mem_map_of_mem hdecl
      rw [h.filter_eq_nil fun hother => hapart _ hother _ hid rfl, List.map_nil,
        List.nil_append, hmore.listed decl hdecl]

end ListsMethods

section Items

variable {l : Loader} {item : Spanned ItemTree} {fns : List FnDecl} {decl? : Option Registration}
  {items : List (Spanned ItemTree)} {rss : List (List Registration)} {α : Type}

/-- Declared functions belong to the trait that their declarations name. -/
theorem FnSource.trait_def_of_mem {source : α → FnSource} {as : List α} {traitDef : Option DefId}
    (h : List.Forall₂ (fun a fn => (source a).lower = .ok fn) as fns)
    (hsource : ∀ a, (source a).traitDef = traitDef) : ∀ fn ∈ fns, fn.traitDef = traitDef := by
  intro fn hfn
  obtain ⟨a, -, hlower⟩ := Outcome.of_mem_map_m (Outcome.map_m_eq_ok.mpr h) hfn
  rw [(lower_fits hlower).traitDef, hsource a]

theorem Enlists.lists_methods (h : Enlists l item fns decl?) (entry : Bool) :
    ListsMethods (fns.map (.fn · entry) ++ decl?.toList) := by
  have hfns := h.filter_map_fn entry
  have htraits : (fns.map (Registration.fn · entry) ++ decl?.toList).filterMap trait? =
      (decl?.bind trait?).toList := filter_map_fns_append (fun _ _ => rfl) fns entry decl?
  -- apart from a trait, no item has a function that belongs to one
  have hother (hnone : ∀ fn ∈ fns, fn.traitDef = none) (hdecl : decl?.bind trait? = none) :
      ListsMethods (fns.map (.fn · entry) ++ decl?.toList) := by
    rw [hdecl] at htraits
    refine ⟨fun fn hfn id htrait => ?_, fun decl hdecl => ?_⟩
    · rw [hfns] at hfn
      rw [hnone fn hfn] at htrait
      cases htrait
    · rw [htraits] at hdecl
      cases hdecl
  cases h with
  | crate | struct => exact hother (fun _ hfn => absurd hfn List.not_mem_nil) rfl
  | externCrate hall => exact hother (FnSource.trait_def_of_mem hall fun _ => rfl) rfl
  | impl htrait hself hall => exact hother (FnSource.trait_def_of_mem hall fun _ => rfl) rfl
  | externFn hlower | fn hlower =>
      exact hother (List.forall_mem_singleton.mpr (FnSource.lower_fits hlower).traitDef) rfl
  | trait hall =>
      rename_i region name methods
      have hown : ∀ fn ∈ fns, fn.traitDef = some (traitOf l region name methods).defId :=
        FnSource.trait_def_of_mem hall fun _ => rfl
      refine ⟨fun fn hfn id htrait => ?_, fun decl hdecl => ?_⟩
      · rw [hfns] at hfn
        rw [hown fn hfn] at htrait
        rw [htraits]
        exact List.mem_singleton.mpr (Option.some.inj htrait).symm
      · rw [htraits] at hdecl
        obtain rfl := List.mem_singleton.mp hdecl
        rw [hfns, List.filter_eq_self.mpr fun fn hfn => decide_eq_true (hown fn hfn),
          FnSource.def_ids hall, traitOf, List.map_map]
        rfl

/-- Where no two traits have the same identity, every trait of a text lists its methods. -/
theorem lists_methods (h : items.mapM (registrations l) = .ok rss)
    (hdistinct : ((rss.flatten.filterMap trait?).map TraitDecl.defId).Nodup) :
    ListsMethods rss.flatten := by
  rw [Outcome.map_m_eq_ok] at h
  induction h with
  | nil => exact .nothing
  | cons hrs _ ih =>
      obtain ⟨fns, entry, decl?, henlists, rfl⟩ := exists_enlists hrs
      rw [List.flatten_cons] at hdistinct ⊢
      refine (henlists.lists_methods entry).append (ih ?_) hdistinct
      rw [List.filterMap_append, List.map_append] at hdistinct
      exact (List.nodup_append.mp hdistinct).2.1

end Items

/-! ## Accepted texts -/

/-- How a program comes from the items of a text: they register `rss`, which is built first and then
entered in a program of crates. -/
structure Entered (l : Loader) (items : List (Spanned ItemTree)) (rss : List (List Registration))
    (p : Program) : Prop where
  loaded : Loaded l items p
  scope : l.scope.Legible
  legible : ∀ item ∈ items, item.value.Legible
  built : items.mapM (registrations l) = .ok rss
  consistent : Consistent l.scope.localCrate rss.flatten
  holds : p.Holds l.scope.localCrate rss.flatten
  enters : Program.Enters { crateName? := some l.scope.localCrate, externals := p.externals } p
    rss.flatten

section Texts

variable {file : Option String} {text : List Char} {p : Program}

theorem entered_of_text (h : loadText file text = .ok p) :
    ∃ items rss, readText text = .ok items ∧ Entered (loaderOf file items) items rss p := by
  obtain ⟨items, hread, hload⟩ := load_text_eq_ok.mp h
  have hspelled := spelled_of_read hread
  have hderives := Reference.derives_program_iff.mp (read_text_eq_ok.mp hread).2
  obtain ⟨hcrates, rss, hrss, hadds⟩ := load_items_eq_ok.mp hload
  have hconsistent := (hcrates.holds_nothing.exists_adds_all_iff (consistent_nil _)).mp ⟨p, hadds⟩
  have hholds := hcrates.holds_nothing.adds_all hadds
  rw [List.append_nil] at hconsistent hholds
  have henters := hadds.enters
  rw [hcrates.crates_only.only, ← hadds.extends.externals] at henters
  exact ⟨items, rss, hread, loaded_loader_of hload, legible_loader_of hspelled hderives hload,
    legible_items hspelled hderives, hrss, hconsistent, hholds, henters⟩

/-- The items of an accepted text are those of what the text registers. Two of them have the same
identity exactly if two have the same heading. If no two have, all that was registered is found under
its identity, and each trait lists the functions that belong to it. -/
theorem local_items_distinct_iff (h : loadText file text = .ok p) :
    ∃ trees rss items, readText text = .ok trees ∧
      trees.mapM (registrations (loaderOf file trees)) = .ok rss ∧
      p.localItems = .ok items ∧ items = rss.flatten.filterMap (item? p.crateName?) ∧
      ((items.map Item.defId).Nodup ↔ (trees.filterMap (heading? (loaderOf file trees))).Nodup) ∧
      ((items.map Item.defId).Nodup → (∀ r ∈ rss.flatten, r.Found p) ∧
        ∀ decl ∈ p.traits.values,
          (p.fns.values.filter fun fn => fn.traitDef = some decl.defId).map FnDecl.defId =
            decl.methods.map fun method =>
              ⟨decl.defId.crate, methodPath decl.defId.path method⟩) := by
  obtain ⟨trees, rss, hread, hp⟩ := entered_of_text h
  have hfns := hp.consistent.fns
  have hids : p.items.map Item.defId = itemIds _ rss.flatten := hp.enters.ids rfl
  have hitems : p.localItems = .ok p.items := by
    rw [Program.localItems, Program.localCrate, Program.localCrate?, hp.loaded.crateName]
    rfl
  refine ⟨trees, rss, p.items, hread, hp.built, hitems, ?_, ?_, fun hdistinct => ?_⟩
  · rw [hp.enters.items, hp.enters.crateName]
    rfl
  · rw [hids]
    exact nodup_item_ids_iff hp.scope rfl hp.legible hp.built hfns
  · rw [hids] at hdistinct
    have htraits : ((rss.flatten.filterMap trait?).map TraitDecl.defId).Nodup :=
      hdistinct.sublist (trait_ids_sublist _ _)
    refine ⟨hp.enters.found hfns hdistinct, fun decl hdecl => ?_⟩
    rw [hp.enters.traits, Table.values_insert_all_eq_iff.mpr htraits] at hdecl
    rw [hp.enters.fns, Table.values_insert_all_eq_iff.mpr hfns]
    exact (lists_methods hp.built htraits).listed decl hdecl

end Texts

/-- A struct, a trait, and an impl of the trait for the struct. -/
def dotText : String :=
  "struct Dot;
trait Show \x7b fn show(Self); \x7d
impl Show for Dot \x7b
    fn show(Dot) \x7b
        let _0: ();
        let _1: Dot;
        bb0: \x7b return; \x7d
    \x7d
\x7d
"

set_option maxRecDepth 20000 in
/-- The items have distinct identities, so that all of them are found. -/
theorem local_items_distinct_dot :
    ∃ p trees rss items, loadText none dotText.toList = .ok p ∧
      readText dotText.toList = .ok trees ∧
      trees.mapM (registrations (loaderOf none trees)) = .ok rss ∧ p.localItems = .ok items ∧
      items.map Item.defId = [⟨"main", "Dot"⟩, ⟨"main", "Show"⟩, ⟨"main", "<Dot as Show>::show"⟩,
        ⟨"main", "<Dot as Show>"⟩] ∧
      (trees.filterMap (heading? (loaderOf none trees))).Nodup ∧ ∀ r ∈ rss.flatten, r.Found p := by
  obtain ⟨p, hload, htest⟩ : ∃ p, loadText none dotText.toList = .ok p ∧
      p.localItems.toOption.any (fun items => decide (items.map Item.defId =
        [⟨"main", "Dot"⟩, ⟨"main", "Show"⟩, ⟨"main", "<Dot as Show>::show"⟩,
          ⟨"main", "<Dot as Show>"⟩])) = true :=
    exists_of_load_chars (by decide +kernel)
  obtain ⟨trees, rss, items, hread, hrss, hitems, -, hiff, hfound⟩ := local_items_distinct_iff hload
  rw [hitems] at htest
  have hids := of_decide_eq_true htest
  have hdistinct : (items.map Item.defId).Nodup := by
    rw [hids]
    decide
  exact ⟨p, trees, rss, items, hload, hread, hrss, hitems, hids, hiff.mp hdistinct,
    (hfound hdistinct).1⟩

/-- Two structs of one name. -/
def doubledText : String :=
  "struct A;
struct A<T>;
"

set_option maxRecDepth 20000 in
/-- Both structs are listed, and only the second one is found. -/
theorem doubled_struct_listed :
    ∃ p items, loadText none doubledText.toList = .ok p ∧ p.localItems = .ok items ∧
      ¬ (items.map Item.defId).Nodup ∧ items.length = 2 ∧
      (p.structDecl ⟨"main", "A"⟩).map StructDecl.params = some ["T"] := by
  obtain ⟨p, hload, htest⟩ : ∃ p, loadText none doubledText.toList = .ok p ∧
      (p.localItems.toOption.any (fun items => decide (¬ (items.map Item.defId).Nodup) &&
          items.length == 2) &&
        decide ((p.structDecl ⟨"main", "A"⟩).map StructDecl.params = some ["T"])) = true :=
    exists_of_load_chars (by decide +kernel)
  rw [Bool.and_eq_true] at htest
  obtain ⟨items, hitems, hlisted⟩ := Outcome.exists_of_any htest.1
  rw [Bool.and_eq_true, decide_eq_true_eq, beq_iff_eq] at hlisted
  exact ⟨p, items, hload, hitems, hlisted.1, hlisted.2, of_decide_eq_true htest.2⟩

end MirAudit.Source
