import MirAudit.Proofs.Program.Entered
import MirAudit.Proofs.Source.LegibleItems

/-!
# What items are identified by

An item of the local crate is identified by its name, and an impl by its type and the path of its
trait. The crate of the trait is left out, and a function, a struct and a trait may share a name: so
two items of an accepted text can have the same identity. They do exactly if two have the same
heading, see `local_items_distinct_iff`. Methods never add to this, since headings are single
segments that are printed unambiguously (`Heading.Legible.eq_of_path`) and paths of methods are not.
-/

namespace MirAudit.Source

open Registration

/-! ## Headings -/

/-- What an item is identified by in its crate. -/
inductive Heading where
  | named (name : String)
  | impl (selfTy : Ty) (traitPath : String)
deriving DecidableEq

/-- The path of what has the heading. -/
def Heading.path : Heading → String
  | .named name => name
  | .impl selfTy traitPath => "<" ++ selfTy.render ++ " as " ++ traitPath ++ ">"

/-- The names in the heading are spelled as such, and its type holds no parameter. -/
def Heading.Legible : Heading → Prop
  | .named name => IsName name.toList
  | .impl selfTy traitPath => selfTy.Legible ∧ selfTy.hasParam = false ∧ LegiblePath traitPath

/-- The heading that a segment is read as. -/
def SegmentTree.heading : SegmentTree → Heading
  | .name text => .named text
  | .qualified ty traitPath => .impl ty.literal (String.intercalate "::" (pathTexts traitPath))

namespace Heading.Legible

variable {heading other : Heading}

/-- A legible heading is read as itself. -/
theorem phrase (h : heading.Legible) :
    Phrase Syntax.segment heading.path fun segment => segment.heading = heading := by
  cases heading with
  | named name => exact (Phrase.name_segment h).imp fun segment hsegment => by rw [hsegment]; rfl
  | impl selfTy traitPath =>
      obtain ⟨hself, hconcrete, hpath⟩ := h
      refine (Phrase.qualified_segment hself.phrase hpath.phrase).imp ?_
      rintro _ ⟨ty, path, rfl, hty, htexts⟩
      rw [SegmentTree.heading, hty, htexts, Ty.literal_concrete hconcrete]

/-- Legible headings differ in their paths. -/
theorem eq_of_path (h : heading.Legible) (hother : other.Legible)
    (hpath : heading.path = other.path) : heading = other := by
  obtain ⟨segment, hreads, hsame⟩ :=
    Phrase.unique (by decide) h.phrase (hother.phrase.of_eq hpath.symm)
  exact hreads.symm.trans hsame

theorem segment (h : heading.Legible) : LegibleSegment heading.path := by
  cases heading with
  | named name => exact .name h
  | impl selfTy traitPath => exact impl_segment_legible h.1 (d := ⟨"", traitPath⟩) h.2.2

end Heading.Legible

/-- Legible segments with separators between them are told apart. -/
theorem eq_of_intercalate {texts others : List String} (hne : texts ≠ []) (hothers : others ≠ [])
    (htexts : ∀ text ∈ texts, LegibleSegment text)
    (hall : ∀ text ∈ others, LegibleSegment text)
    (h : String.intercalate "::" texts = String.intercalate "::" others) : texts = others := by
  obtain ⟨path, hpath, hsame⟩ := Phrase.unique (by decide) (Phrase.segments hne htexts)
    ((Phrase.segments hothers hall).of_eq h.symm)
  rw [← path_texts_eq_of_forall hpath, path_texts_eq_of_forall hsame]

theorem method_path_eq_intercalate (owner method : String) :
    methodPath owner method = String.intercalate "::" [owner, method] := by
  rw [String.intercalate_cons_cons, String.intercalate_singleton, methodPath]

/-- A method has no heading. -/
theorem Heading.Legible.path_ne_method {heading : Heading} (h : heading.Legible)
    {owner method : String} (howner : LegibleSegment owner) (hmethod : LegibleSegment method) :
    heading.path ≠ methodPath owner method := by
  intro hpath
  have hsplit : String.intercalate "::" [heading.path] = String.intercalate "::" [owner, method] := by
    rw [String.intercalate_singleton, hpath, method_path_eq_intercalate]
  have hsame := eq_of_intercalate (List.cons_ne_nil _ _) (List.cons_ne_nil _ _)
    (List.forall_mem_singleton.mpr h.segment)
    (List.forall_mem_cons.mpr ⟨howner, List.forall_mem_singleton.mpr hmethod⟩) hsplit
  cases hsame

/-! ## Items of a text -/

/-- The heading of an item. Foreign functions have none, since they are not listed. -/
def heading? (l : Loader) (item : Spanned ItemTree) : Option Heading :=
  match item.value with
  | .struct name _ | .trait name _ => some (.named name.string)
  | .fn _ signature _ => some (.named signature.name.string)
  | .impl path selfTy _ =>
    match lowerDef l.scope path, selfTy.lower l.scope with
    | .ok traitDef, .ok selfTy => some (.impl selfTy traitDef.path)
    | _, _ => none
  | .crate _ | .externCrate _ _ | .externFn _ => none

/-- The identity of a method of an owner in the local crate. -/
def IsMethodId (l : Loader) (id : DefId) : Prop :=
  ∃ owner method, LegibleSegment owner ∧ LegibleSegment method ∧
    id = l.scope.localDef (methodPath owner method)

section Item

variable {l : Loader} {item : Spanned ItemTree} {fns : List FnDecl} {decl? : Option Registration}
  {α : Type}

/-- The trait that a path names has a legible path. -/
theorem trait_path_legible (hl : l.scope.Legible) {path : PathTree} {traitDef : DefId}
    (hne : path ≠ []) (hpath : ∀ segment ∈ path, segment.Legible)
    (h : lowerDef l.scope path = .ok traitDef) : LegiblePath traitDef.path := by
  obtain ⟨texts, htexts, hdef⟩ := Outcome.bind_eq_ok.mp h
  obtain rfl := Outcome.pure_eq_ok.mp hdef
  obtain ⟨hsome, hall⟩ := segments_legible hl hne hpath htexts
  exact (def_of_legible hl hsome hall).2

/-- The headings of a text are legible. -/
theorem heading_legible (hl : l.scope.Legible) (htypes : l.scope.types = [])
    (hitem : item.value.Legible) {heading : Heading} (h : heading? l item = some heading) :
    heading.Legible := by
  obtain ⟨value, region⟩ := item
  cases value with
  | crate | externCrate | externFn => cases h
  | struct name params =>
      cases h
      exact is_name_string hitem
  | trait name methods =>
      cases h
      exact is_name_string hitem.1
  | fn entry signature body =>
      cases h
      exact is_name_string hitem.1.1
  | impl path selfTree methods =>
      obtain ⟨hne, hpath, hself, -⟩ := hitem
      unfold heading? at h
      dsimp only at h
      split at h
      next traitDef selfTy htrait hselfTy =>
        cases h
        refine ⟨hself _ hl _ hselfTy, TypeTree.lower_concrete (fun name ty hbound => ?_) hselfTy,
          trait_path_legible hl hne hpath htrait⟩
        rw [htypes] at hbound
        cases hbound
      next => cases h

/-- Declared functions have the identities of their declarations. -/
theorem FnSource.def_ids {source : α → FnSource} {as : List α}
    (h : List.Forall₂ (fun a fn => (source a).lower = .ok fn) as fns) :
    fns.map FnDecl.defId = as.map fun a => (source a).defId := by
  induction h with
  | nil => rfl
  | cons hlower _ ih => rw [List.map_cons, List.map_cons, ih, (lower_fits hlower).defId]

theorem FnSource.body_eq_none {src : FnSource} {fn : FnDecl} (h : src.lower = .ok fn)
    (hsrc : src.body = none) : fn.body = none := by
  rw [← Option.not_isSome_iff_eq_none, (lower_fits h).hasBody, hsrc]
  exact Bool.false_ne_true

/-- What is listed of methods has the identities of methods, each of them once. -/
theorem method_ids {owner : String} {methods : List (Spanned MethodTree)}
    {source : Spanned MethodTree → FnSource} (howner : LegibleSegment owner)
    (hmethods : ∀ method ∈ methods, method.value.Legible)
    (hsource : ∀ tree, (source tree).defId =
      l.scope.localDef (methodPath owner tree.value.signature.name.string))
    (h : List.Forall₂ (fun tree fn => (source tree).lower = .ok fn) methods fns) (entry : Bool) :
    (itemIds (some l.scope.localCrate) (fns.map (.fn · entry))).Sublist (fns.map FnDecl.defId) ∧
      ∀ id ∈ itemIds (some l.scope.localCrate) (fns.map (.fn · entry)), IsMethodId l id := by
  have hsublist := item_ids_fns_sublist (some l.scope.localCrate) entry fns
  refine ⟨hsublist, fun id hid => ?_⟩
  have hmem := hsublist.subset hid
  rw [FnSource.def_ids h] at hmem
  obtain ⟨tree, htree, rfl⟩ := List.mem_map.mp hmem
  exact ⟨owner, _, howner, .name (is_name_string (hmethods tree htree).1.1), hsource tree⟩

/-- What an item lists: the methods with a body, and behind them itself under its heading. -/
theorem Enlists.item_ids (h : Enlists l item fns decl?) (hl : l.scope.Legible)
    (hitem : item.value.Legible) (entry : Bool) :
    ∃ methods, itemIds (some l.scope.localCrate) (fns.map (.fn · entry) ++ decl?.toList) =
        methods ++ ((heading? l item).map fun heading => l.scope.localDef heading.path).toList ∧
      methods.Sublist (fns.map FnDecl.defId) ∧ ∀ id ∈ methods, IsMethodId l id := by
  have hnone : ([] : List DefId).Sublist (fns.map FnDecl.defId) ∧
      ∀ id ∈ ([] : List DefId), IsMethodId l id :=
    ⟨List.nil_sublist _, nofun⟩
  cases h with
  | crate | struct => exact ⟨[], rfl, hnone⟩
  | externCrate hall =>
      refine ⟨[], ?_, hnone⟩
      rw [Option.toList_none, List.append_nil]
      refine item_ids_of_no_body _ entry fun fn hfn => ?_
      obtain ⟨tree, -, hlower⟩ := Outcome.of_mem_map_m (Outcome.map_m_eq_ok.mpr hall) hfn
      exact FnSource.body_eq_none hlower rfl
  | externFn hlower =>
      refine ⟨[], item_ids_of_no_body _ entry (List.forall_mem_singleton.mpr ?_), hnone⟩
      exact FnSource.body_eq_none hlower rfl
  | fn hlower =>
      have hfits := FnSource.lower_fits hlower
      refine ⟨[], ?_, hnone⟩
      show itemIds _ [.fn _ entry] = _
      rw [item_ids_fn, hfits.defId, hfits.hasBody]
      simp [FnSource.free, Scope.localDef, heading?, Heading.path]
  | trait hall =>
      have howner := LegibleSegment.name (is_name_string hitem.1)
      exact ⟨_, item_ids_append _ _ _, method_ids howner hitem.2 (fun _ => rfl) hall entry⟩
  | impl htrait hself hall =>
      obtain ⟨hne, hpath, hty, hmethods⟩ := hitem
      have howner :=
        impl_segment_legible (hty _ hl _ hself) (trait_path_legible hl hne hpath htrait)
      simp only [heading?, htrait, hself]
      exact ⟨_, item_ids_append _ _ _, method_ids howner hmethods (fun _ => rfl) hall entry⟩

theorem Enlists.filter_map_fn (h : Enlists l item fns decl?) (entry : Bool) :
    (fns.map (Registration.fn · entry) ++ decl?.toList).filterMap fn? = fns := by
  have hlast : decl?.toList.filterMap fn? = [] := by cases h <;> rfl
  rw [List.filterMap_append, filter_map_fn_fns, hlast, List.append_nil]

end Item

section Items

variable {l : Loader} {items : List (Spanned ItemTree)} {rss : List (List Registration)}

/-- What the items of a text list: methods, and the items themselves under their headings. -/
theorem item_ids_perm (hl : l.scope.Legible) (hitems : ∀ item ∈ items, item.value.Legible)
    (h : items.mapM (registrations l) = .ok rss) :
    ∃ methods, (itemIds (some l.scope.localCrate) rss.flatten).Perm
        (methods ++ (items.filterMap (heading? l)).map fun heading =>
          l.scope.localDef heading.path) ∧
      methods.Sublist ((rss.flatten.filterMap fn?).map FnDecl.defId) ∧
      ∀ id ∈ methods, IsMethodId l id := by
  rw [Outcome.map_m_eq_ok] at h
  induction h with
  | nil => exact ⟨[], .nil, .slnil, nofun⟩
  | cons hrs _ ih =>
      rename_i item rs items rss _
      obtain ⟨hitem, hitems⟩ := List.forall_mem_cons.mp hitems
      obtain ⟨fns, entry, decl?, henlists, rfl⟩ := exists_enlists hrs
      obtain ⟨ms, hids, hsublist, hms⟩ := henlists.item_ids hl hitem entry
      obtain ⟨more, hperm, hmoreSublist, hmore⟩ := ih hitems
      refine ⟨ms ++ more, ?_, ?_, List.forall_mem_append.mpr ⟨hms, hmore⟩⟩
      · rw [List.flatten_cons, item_ids_append, hids, List.append_assoc, List.append_assoc]
        have hheadings : ((item :: items).filterMap (heading? l)).map
            (fun heading => l.scope.localDef heading.path) =
              ((heading? l item).map fun heading => l.scope.localDef heading.path).toList ++
                (items.filterMap (heading? l)).map fun heading => l.scope.localDef heading.path := by
          cases hheading : heading? l item <;> simp [hheading]
        rw [hheadings]
        refine ((hperm.append_left _).trans ?_).append_left ms
        exact List.perm_append_comm_assoc _ _ _
      · rw [List.flatten_cons, List.filterMap_append, List.map_append,
          henlists.filter_map_fn entry]
        exact hsublist.append hmoreSublist

/-- The headings of the items of a text are legible. -/
theorem headings_legible (hl : l.scope.Legible) (htypes : l.scope.types = [])
    (hitems : ∀ item ∈ items, item.value.Legible) :
    ∀ heading ∈ items.filterMap (heading? l), heading.Legible := by
  intro heading hheading
  obtain ⟨item, hitem, hsome⟩ := List.mem_filterMap.mp hheading
  exact heading_legible hl htypes (hitems item hitem) hsome

/-- Legible headings are distinct exactly if the identities are that they stand for. -/
theorem nodup_heading_ids_iff {headings : List Heading}
    (h : ∀ heading ∈ headings, heading.Legible) :
    (headings.map fun heading => l.scope.localDef heading.path).Nodup ↔ headings.Nodup := by
  constructor
  · exact fun hids => hids.of_map _
  · intro hheadings
    refine hheadings.map_on fun heading hheading other hother hsame => ?_
    exact (h heading hheading).eq_of_path (h other hother) (congrArg DefId.path hsame)

/-- The items of a text have distinct identities exactly if they have distinct headings. -/
theorem nodup_item_ids_iff (hl : l.scope.Legible) (htypes : l.scope.types = [])
    (hitems : ∀ item ∈ items, item.value.Legible) (h : items.mapM (registrations l) = .ok rss)
    (hfns : ((rss.flatten.filterMap fn?).map FnDecl.defId).Nodup) :
    (itemIds (some l.scope.localCrate) rss.flatten).Nodup ↔
      (items.filterMap (heading? l)).Nodup := by
  have hlegible := headings_legible hl htypes hitems
  obtain ⟨methods, hperm, hsublist, hmethods⟩ := item_ids_perm hl hitems h
  rw [hperm.nodup_iff, ← nodup_heading_ids_iff hlegible]
  constructor
  · exact fun hall => (List.nodup_append.mp hall).2.1
  · intro hheadings
    refine List.nodup_append.mpr ⟨hfns.sublist hsublist, hheadings, ?_⟩
    intro id hid other hother hsame
    obtain ⟨heading, hheading, rfl⟩ := List.mem_map.mp hother
    obtain ⟨owner, method, howner, hmethod, rfl⟩ := hmethods id hid
    exact (hlegible heading hheading).path_ne_method howner hmethod
      (congrArg DefId.path hsame).symm

end Items

end MirAudit.Source
