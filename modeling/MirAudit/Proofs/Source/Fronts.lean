import MirAudit.Proofs.Source.CutOut
import MirAudit.Proofs.Source.Swaps

/-!
# The front of a text

Some items of a text can be kept and the others left out. In front of an item that cannot be built
all items were built: they are accepted with the declarations of the crates behind them if these
declarations are, `front_accepted_iff`, and always if the crates behind them are empty,
`front_accepted`.
-/

namespace MirAudit.Source

/-! ## Texts of items -/

section Texts

variable {file file' : Option String} {text : List Char} {items items' : List (Spanned ItemTree)}

theorem load_text_of_read (h : readText text = .ok items) :
    loadText file text = loadItems file items := by
  rw [loadText, h]
  rfl

/-- Whether items are accepted does not depend on their places. -/
theorem accepted_unplaced_iff (h : items'.map (Spanned.unplaced ItemTree.unplaced) =
      items.map (Spanned.unplaced ItemTree.unplaced)) :
    (∃ p, loadItems file' items' = .ok p) ↔ ∃ p, loadItems file items = .ok p := by
  constructor
  · intro hload
    obtain ⟨p, hload⟩ := hload
    obtain ⟨q, hq, -⟩ := load_items_reordered (.of_eq h) hload
    exact ⟨q, hq⟩
  · intro hload
    obtain ⟨p, hload⟩ := hload
    obtain ⟨q, hq, -⟩ := load_items_reordered (.of_eq h.symm) hload
    exact ⟨q, hq⟩

/-- What some items take of a text is accepted exactly if these items are. -/
theorem accepted_cut_iff {kept : List (Spanned ItemTree)} (hread : readText text = .ok items)
    (hkept : ∀ item ∈ kept, item ∈ items) :
    (∃ p, loadText file' (cutAll text kept).toList = .ok p) ↔ ∃ p, loadItems file kept = .ok p := by
  obtain ⟨items', trees, hread', htrees, hsame⟩ := exists_read_phrase (items_phrase hread hkept)
  simp only [load_text_of_read hread']
  exact accepted_unplaced_iff (hsame.trans htrees)

end Texts

/-! ## Declarations of crates -/

/-- The declarations of crates among some items. -/
def crateDeclarations (items : List (Spanned ItemTree)) : List (Spanned ItemTree) :=
  items.filter fun item => !item.value.isDefinition

section Declarations

variable {l : Loader} {item : Spanned ItemTree} {rs : List Registration}
  {items front back : List (Spanned ItemTree)}

theorem mem_crate_declarations :
    item ∈ crateDeclarations items ↔ item ∈ items ∧ item.value.isDefinition = false := by
  rw [crateDeclarations, List.mem_filter, Bool.not_eq_true']

theorem mem_of_crate_declaration (h : item ∈ crateDeclarations items) : item ∈ items :=
  (mem_crate_declarations.mp h).1

/-- What definitions do not have is found among the declarations of crates. -/
theorem filter_map_crate_declarations {α : Type} {part : Spanned ItemTree → Option α}
    (hpart : ∀ item, item.value.isDefinition = true → part item = none) :
    (crateDeclarations items).filterMap part = items.filterMap part := by
  induction items with
  | nil => rfl
  | cons item items ih =>
      rw [crateDeclarations, List.filter_cons]
      cases hitem : item.value.isDefinition with
      | true =>
          rw [if_neg (by decide), List.filterMap_cons_none (hpart item hitem)]
          exact ih
      | false =>
          rw [if_pos (by decide), List.filterMap_cons, List.filterMap_cons]
          simp only [← ih]
          rfl

/-- Declared functions are functions of the crate that their declarations name. -/
theorem FnSource.crate_of_mem {α : Type} {source : α → FnSource} {as : List α} {fns : List FnDecl}
    {crate : String} (h : List.Forall₂ (fun a fn => (source a).lower = .ok fn) as fns)
    (hsource : ∀ a, (source a).defId.crate = crate) : ∀ fn ∈ fns, fn.defId.crate = crate := by
  intro fn hfn
  have hid := List.mem_map_of_mem (f := FnDecl.defId) hfn
  rw [FnSource.def_ids h] at hid
  obtain ⟨a, -, ha⟩ := List.mem_map.mp hid
  rw [← ha, hsource a]

/-- What the declaration of a crate registers are functions of that crate. -/
theorem registered_by_declaration (h : registrations l item = .ok rs)
    (hitem : item.value.isDefinition = false) :
    ∀ r ∈ rs, ∃ fn, r = .fn fn false ∧ externalName? item = some fn.defId.crate := by
  obtain ⟨value, region⟩ := item
  cases value with
  | crate name =>
      obtain rfl := Outcome.pure_eq_ok.mp h
      exact fun _ hr => absurd hr List.not_mem_nil
  | externCrate name signatures =>
      obtain ⟨rss, hrss, rfl⟩ := Outcome.map_eq_ok.mp h
      obtain ⟨fns, hfns, hall⟩ := FnSource.exists_registered hrss
      intro r hr
      rw [hfns] at hr
      obtain ⟨fn, hfn, rfl⟩ := List.mem_map.mp hr
      have hcrate : fn.defId.crate = name.string :=
        FnSource.crate_of_mem hall (fun _ => rfl) fn hfn
      exact ⟨fn, rfl, congrArg some hcrate.symm⟩
  | externFn | struct | trait | impl | fn => cases hitem

/-- The functions of a definition are local. -/
theorem registered_by_definition (h : registrations l item = .ok rs)
    (hitem : item.value.isDefinition = true) :
    ∀ fn ∈ rs.filterMap Registration.fn?, fn.defId.crate = l.scope.localCrate := by
  obtain ⟨fns, entry, decl?, henlists, rfl⟩ := exists_enlists h
  rw [henlists.filter_map_fn entry]
  cases henlists with
  | crate | externCrate _ => cases hitem
  | struct => exact fun _ hfn => absurd hfn List.not_mem_nil
  | externFn hlower | fn hlower =>
      rw [List.forall_mem_singleton, (FnSource.lower_fits hlower).defId]
      rfl
  | trait hfns => exact FnSource.crate_of_mem hfns fun _ => rfl
  | impl _ _ hfns => exact FnSource.crate_of_mem hfns fun _ => rfl

end Declarations

/-! ## Items that were built -/

section Fronts

variable {file : Option String} {items kept front back : List (Spanned ItemTree)}
  {item : Spanned ItemTree} {rss : List (List Registration)}

/-- Some of the items that are accepted are accepted, if they have the same crates. -/
theorem accepted_of_sublist (hsub : kept.Sublist items)
    (hlocal : kept.filterMap crateName? = items.filterMap crateName?)
    (hexternal : kept.filterMap externalName? = items.filterMap externalName?)
    (h : ∃ p, loadItems file items = .ok p) : ∃ p, loadItems file kept = .ok p := by
  obtain ⟨hcrates, rss, hrss, hconsistent⟩ := exists_load_items_iff.mp h
  obtain ⟨hloader, hcrate, hfit⟩ := loader_of_eq hlocal hexternal file
  obtain ⟨rss', hrss', hsub'⟩ := Outcome.map_m_sublist hsub hrss
  rw [← hloader] at hrss'
  rw [← hcrate] at hconsistent
  exact exists_load_items_iff.mpr ⟨hfit hcrates, rss', hrss', hconsistent.of_sublist hsub'.flatten⟩

/-- A function that some items register and that is not local is registered by a declaration. -/
theorem mem_of_external {l : Loader} {declared : List (List Registration)}
    (hrss : items.mapM (registrations l) = .ok rss)
    (hdeclared : (crateDeclarations items).mapM (registrations l) = .ok declared) {fn : FnDecl}
    (hfn : fn ∈ rss.flatten.filterMap Registration.fn?)
    (hcrate : fn.defId.crate ≠ l.scope.localCrate) :
    fn ∈ declared.flatten.filterMap Registration.fn? := by
  obtain ⟨r, hr, hsome⟩ := List.mem_filterMap.mp hfn
  obtain ⟨rs, hrs, hmem⟩ := List.mem_flatten.mp hr
  obtain ⟨item, hitem, hbuilt⟩ := Outcome.of_mem_map_m hrss hrs
  cases hdefinition : item.value.isDefinition with
  | true =>
      exact absurd (registered_by_definition hbuilt hdefinition fn
        (List.mem_filterMap.mpr ⟨r, hmem, hsome⟩)) hcrate
  | false =>
      obtain ⟨rs', hrs', hbuilt'⟩ :=
        Outcome.exists_of_map_m hdeclared (mem_crate_declarations.mpr ⟨hitem, hdefinition⟩)
      obtain rfl := Except.ok.inj (hbuilt.symm.trans hbuilt')
      exact List.mem_filterMap.mpr ⟨r, List.mem_flatten_of_mem hrs' hmem, hsome⟩

/-- Items in front of a definition that were built are accepted with the declarations of crates
behind it exactly if all declarations of crates are accepted on their own. -/
theorem front_accepted_iff (hitem : item.value.isDefinition = true)
    (hcrates : CratesFit (front ++ item :: back))
    (hrss : front.mapM (registrations (loaderOf file (front ++ item :: back))) = .ok rss)
    (hconsistent : Consistent (localCrateOf (front ++ item :: back)) rss.flatten) :
    (∃ p, loadItems file (front ++ crateDeclarations back) = .ok p) ↔
      ∃ p, loadItems file (crateDeclarations (front ++ item :: back)) = .ok p := by
  have hall : crateDeclarations (front ++ item :: back) =
      crateDeclarations front ++ crateDeclarations back := by
    simp [crateDeclarations, hitem]
  have hdeclared {part : Spanned ItemTree → Option String}
      (hpart : ∀ item, item.value.isDefinition = true → part item = none) :
      (crateDeclarations (front ++ item :: back)).filterMap part =
          (front ++ item :: back).filterMap part ∧
        (front ++ crateDeclarations back).filterMap part =
          (front ++ item :: back).filterMap part := by
    refine ⟨filter_map_crate_declarations hpart, ?_⟩
    rw [List.filterMap_append, List.filterMap_append, filter_map_crate_declarations hpart,
      List.filterMap_cons_none (hpart item hitem)]
  obtain ⟨hlocal, hlocal'⟩ := hdeclared fun item h => (names_no_crate h).1
  obtain ⟨hexternal, hexternal'⟩ := hdeclared fun item h => (names_no_crate h).2
  constructor
  · intro h
    refine accepted_of_sublist ?_ (hlocal.trans hlocal'.symm) (hexternal.trans hexternal'.symm) h
    rw [hall]
    exact (List.filter_sublist).append_right _
  · intro h
    obtain ⟨-, built, hbuilt, hdeclarations⟩ := exists_load_items_iff.mp h
    obtain ⟨hloader, hcrate, -⟩ := loader_of_eq hlocal hexternal file
    obtain ⟨hloader', hcrate', hfit⟩ := loader_of_eq hlocal' hexternal' file
    rw [hloader, hall, Outcome.map_m_append_eq_ok] at hbuilt
    rw [hcrate] at hdeclarations
    obtain ⟨declared, more, hdeclaredBuilt, hmore, rfl⟩ := hbuilt
    rw [List.flatten_append] at hdeclarations
    refine exists_load_items_iff.mpr ⟨hfit hcrates, rss ++ more, ?_, ?_⟩
    · rw [hloader']
      exact Outcome.map_m_append_eq_ok.mpr ⟨rss, more, hrss, hmore, rfl⟩
    · rw [hcrate', List.flatten_append]
      refine hconsistent.append_external hdeclarations (fun r hr => ?_)
        fun fn hfn => mem_of_external hrss hdeclaredBuilt hfn
      obtain ⟨rs, hrs, hmem⟩ := List.mem_flatten.mp hr
      obtain ⟨declaration, hdeclaration, hregistered⟩ := Outcome.of_mem_map_m hmore hrs
      obtain ⟨hback, hnot⟩ := mem_crate_declarations.mp hdeclaration
      obtain ⟨fn, rfl, hname⟩ := registered_by_declaration hregistered hnot r hmem
      refine ⟨fn, rfl, fun heq => hcrates.apart ?_⟩
      have hbehind : declaration ∈ front ++ item :: back := by simp [hback]
      exact List.mem_filterMap.mpr ⟨declaration, hbehind, hname.trans (congrArg some heq)⟩

/-- Items that were built are accepted with the local crate and the external crates behind them, if
these are empty. -/
theorem front_accepted {text : List Char} (hread : readText text = .ok (front ++ back))
    (hcrates : CratesFit (front ++ back))
    (hrss : front.mapM (registrations (loaderOf file (front ++ back))) = .ok rss)
    (hconsistent : Consistent (localCrateOf (front ++ back)) rss.flatten) (file' : Option String) :
    ∃ p, loadText file' (cutAll text front ++ cratesText (back.filterMap crateName?).head?
      (back.filterMap externalName?)).toList = .ok p := by
  have hspelled := spelled_of_read hread
  have hderives := Reference.derives_program_iff.mp (read_text_eq_ok.mp hread).2
  have hlocal : ∀ name ∈ (back.filterMap crateName?).head?, IsName name.toList := by
    intro name hname
    obtain ⟨item, hitem, hfound⟩ := List.mem_filterMap.mp (List.mem_of_head? hname)
    exact is_name_of_crate hspelled hderives item (List.mem_append_right _ hitem) name hfound
  have hexternals : ∀ name ∈ back.filterMap externalName?, IsName name.toList := by
    intro name hname
    obtain ⟨item, hitem, hfound⟩ := List.mem_filterMap.mp hname
    exact is_name_of_external hspelled hderives item (List.mem_append_right _ hitem) name hfound
  have hfront : ∀ item ∈ front, item ∈ front ++ back := fun _ => List.mem_append_left _
  obtain ⟨items', _, hread', ⟨front', named, rfl, hsame, hnamed⟩, hplaces⟩ := exists_read_phrase
    ((items_phrase hread hfront).many_append (crates_phrase hlocal hexternals)
      (joint_cut_all hread hfront _))
  rw [load_text_of_read hread']
  rw [List.map_append, hsame, ← List.map_append] at hplaces
  suffices h : ∃ p, loadItems file (front ++ named) = .ok p from
    (accepted_unplaced_iff hplaces).mpr h
  -- the crates are those of the text, each in its place
  have hone : (back.filterMap crateName?).head?.toList = back.filterMap crateName? := by
    have honce := hcrates.once
    rw [List.filterMap_append, List.length_append] at honce
    generalize back.filterMap crateName? = names at honce ⊢
    rcases names with _ | ⟨name, _ | ⟨other, names⟩⟩
    · rfl
    · rfl
    · simp only [List.length_cons] at honce
      omega
  obtain ⟨hloader, hcrate, hfit⟩ :
      loaderOf file (front ++ named) = loaderOf file (front ++ back) ∧ _ :=
    loader_of_eq (by rw [List.filterMap_append, hnamed.local_name, hone, List.filterMap_append])
      (by rw [List.filterMap_append, hnamed.external_names, List.filterMap_append]) file
  obtain ⟨nothing, hnothing, hflat⟩ := hnamed.exists_built (loaderOf file (front ++ named))
  refine exists_load_items_iff.mpr ⟨hfit hcrates, rss ++ nothing,
    Outcome.map_m_append_eq_ok.mpr ⟨rss, nothing, hloader ▸ hrss, hnothing, rfl⟩, ?_⟩
  rw [List.flatten_append, hflat, List.append_nil, hcrate]
  exact hconsistent

end Fronts

end MirAudit.Source
