import MirAudit.Proofs.Program.Registrations

/-!
# What registrations enter

Registrations that succeed store their declarations one after another and list what is an item:
`AddsAll.enters`. Functions and impls are never replaced. A struct or a trait replaces an earlier one
of its identity, and an impl is stored under its identity as well, so that an earlier declaration is
found only if no later one has its identity: `Program.Enters.found`.
-/

namespace MirAudit

namespace Registration

/-- The struct that is registered. -/
def struct? : Registration → Option StructDecl
  | .struct decl => some decl
  | _ => none

/-- The trait that is registered. -/
def trait? : Registration → Option TraitDecl
  | .trait decl => some decl
  | _ => none

/-- The item that lists what is registered. A function is listed only if it belongs to the local
crate and has a body. -/
def item? (crateName? : Option String) : Registration → Option Item
  | .fn decl _ =>
    if crateName? = some decl.defId.crate && decl.body.isSome then some (Program.fnItem decl)
    else none
  | .struct decl =>
    some { defId := decl.defId, name := decl.defId.symbol, kind := .type, span := decl.span }
  | .trait decl =>
    some { defId := decl.defId, name := decl.defId.symbol, kind := .trait, span := decl.span }
  | .impl decl =>
    some { defId := decl.defId, name := decl.defId.symbol, kind := .other, span := decl.span }

/-- What is registered is looked up under its identity. -/
def Found (p : Program) : Registration → Prop
  | .fn decl _ => p.fnDecl decl.defId = some decl
  | .struct decl => p.structDecl decl.defId = some decl
  | .trait decl => Program.require p.traits decl.defId = .ok decl
  | .impl decl => Program.require p.impls decl.defId = .ok decl

/-- The identities of the items that list some registrations. -/
def itemIds (crateName? : Option String) (rs : List Registration) : List DefId :=
  (rs.filterMap (item? crateName?)).map Item.defId

theorem item_ids_append (crateName? : Option String) (rs more : List Registration) :
    itemIds crateName? (rs ++ more) = itemIds crateName? rs ++ itemIds crateName? more := by
  rw [itemIds, List.filterMap_append, List.map_append]
  rfl

theorem item_ids_fn (crateName? : Option String) (fn : FnDecl) (entry : Bool) :
    itemIds crateName? [.fn fn entry] =
      if crateName? = some fn.defId.crate && fn.body.isSome then [fn.defId] else [] := by
  by_cases hitem : (decide (crateName? = some fn.defId.crate) && fn.body.isSome) = true
  · rw [if_pos hitem, itemIds, List.filterMap_cons, item?, if_pos hitem]
    rfl
  · rw [if_neg hitem, itemIds, List.filterMap_cons, item?, if_neg hitem]
    rfl

/-- Functions without body are not listed. -/
theorem item_ids_of_no_body (crateName? : Option String) (entry : Bool) {fns : List FnDecl}
    (h : ∀ fn ∈ fns, fn.body = none) : itemIds crateName? (fns.map (.fn · entry)) = [] := by
  induction fns with
  | nil => rfl
  | cons fn fns ih =>
      obtain ⟨hfn, hfns⟩ := List.forall_mem_cons.mp h
      rw [List.map_cons, ← List.singleton_append, item_ids_append, item_ids_fn, ih hfns, hfn]
      simp

/-- Functions that are listed are listed once, in order. -/
theorem item_ids_fns_sublist (crateName? : Option String) (entry : Bool) (fns : List FnDecl) :
    (itemIds crateName? (fns.map (.fn · entry))).Sublist (fns.map FnDecl.defId) := by
  induction fns with
  | nil => exact List.Sublist.refl _
  | cons fn fns ih =>
      rw [List.map_cons, ← List.singleton_append, item_ids_append, item_ids_fn]
      refine (?_ : List.Sublist _ [fn.defId]).append ih
      split
      · exact List.Sublist.refl _
      · exact List.nil_sublist _

theorem filter_map_fn_fns (entry : Bool) (fns : List FnDecl) :
    (fns.map (Registration.fn · entry)).filterMap fn? = fns := by
  rw [List.filterMap_map]
  exact List.filterMap_some

/-- What is picked from functions and one further registration, if nothing is picked from the
functions. -/
theorem filter_map_fns_append {α : Type} {decl? : Registration → Option α}
    (hfns : ∀ fn entry, decl? (.fn fn entry) = none) (fns : List FnDecl) (entry : Bool)
    (last? : Option Registration) :
    (fns.map (Registration.fn · entry) ++ last?.toList).filterMap decl? = (last?.bind decl?).toList := by
  have hnone : (fns.map (Registration.fn · entry)).filterMap decl? = [] := by
    rw [List.filterMap_map, List.filterMap_eq_nil_iff]
    exact fun fn _ => hfns fn entry
  rw [List.filterMap_append, hnone, List.nil_append]
  cases last? with
  | none => rfl
  | some last =>
      show [last].filterMap decl? = (decl? last).toList
      cases hlast : decl? last <;> simp [hlast]

/-- Declarations of a kind that is always listed have their identities among those of the items. -/
theorem sublist_item_ids {α : Type} {decl? : Registration → Option α} {id : α → DefId}
    {crateName? : Option String}
    (h : ∀ r decl, decl? r = some decl → (r.item? crateName?).map Item.defId = some (id decl))
    (rs : List Registration) : ((rs.filterMap decl?).map id).Sublist (itemIds crateName? rs) := by
  induction rs with
  | nil => exact List.Sublist.refl _
  | cons r rs ih =>
      rw [← List.singleton_append, item_ids_append, List.filterMap_append, List.map_append]
      refine List.Sublist.append ?_ ih
      cases hdecl : decl? r with
      | none => simp [hdecl]
      | some decl =>
          obtain ⟨item, hitem, hid⟩ := Option.map_eq_some_iff.mp (h r decl hdecl)
          simp [itemIds, hdecl, hitem, hid]

section Listed

variable (crateName? : Option String) (rs : List Registration)

theorem struct_ids_sublist :
    ((rs.filterMap struct?).map StructDecl.defId).Sublist (itemIds crateName? rs) := by
  refine sublist_item_ids (fun r decl hdecl => ?_) rs
  cases r <;> cases hdecl
  rfl

theorem trait_ids_sublist :
    ((rs.filterMap trait?).map TraitDecl.defId).Sublist (itemIds crateName? rs) := by
  refine sublist_item_ids (fun r decl hdecl => ?_) rs
  cases r <;> cases hdecl
  rfl

theorem impl_ids_sublist :
    ((rs.filterMap impl?).map TraitImpl.defId).Sublist (itemIds crateName? rs) := by
  refine sublist_item_ids (fun r decl hdecl => ?_) rs
  cases r <;> cases hdecl
  rfl

end Listed

end Registration

open Registration

namespace Program

theorem require_eq_ok {ν : Type} {table : Table DefId ν} {key : DefId} {value : ν} :
    require table key = .ok value ↔ table.get? key = some value := by
  unfold require
  cases table.get? key <;> simp

/-- `q` is `p` with some registrations: their declarations are stored one after another, and what is
an item is listed behind the items of `p`. -/
structure Enters (p q : Program) (rs : List Registration) : Prop where
  crateName : q.crateName? = p.crateName?
  items : q.items = p.items ++ rs.filterMap (item? p.crateName?)
  fns : q.fns = Table.insertAll FnDecl.defId p.fns (rs.filterMap fn?)
  structs : q.structs = Table.insertAll StructDecl.defId p.structs (rs.filterMap struct?)
  traits : q.traits = Table.insertAll TraitDecl.defId p.traits (rs.filterMap trait?)
  impls : q.impls = Table.insertAll TraitImpl.defId p.impls (rs.filterMap impl?)

namespace Enters

variable {p q s : Program} {rs more : List Registration}

theorem nothing (p : Program) : p.Enters p [] :=
  ⟨rfl, (List.append_nil _).symm, rfl, rfl, rfl, rfl⟩

theorem trans (h : p.Enters q rs) (h' : q.Enters s more) : p.Enters s (rs ++ more) where
  crateName := h'.crateName.trans h.crateName
  items := by
    rw [h'.items, h.items, h.crateName, List.filterMap_append, List.append_assoc]
  fns := by
    rw [h'.fns, h.fns, List.filterMap_append, Table.insert_all_append]
  structs := by
    rw [h'.structs, h.structs, List.filterMap_append, Table.insert_all_append]
  traits := by
    rw [h'.traits, h.traits, List.filterMap_append, Table.insert_all_append]
  impls := by
    rw [h'.impls, h.impls, List.filterMap_append, Table.insert_all_append]

/-- A function is listed only if it is an item. -/
theorem entering (p : Program) (fn : FnDecl) (entry : Bool) :
    p.Enters (p.entering fn entry) [.fn fn entry] := by
  have hlisted : (Registration.fn fn entry).item? p.crateName? =
      if p.isItem fn then some (fnItem fn) else none := rfl
  have hitem : [Registration.fn fn entry].filterMap (item? p.crateName?) =
      if p.isItem fn then [fnItem fn] else [] := by
    rw [List.filterMap_cons, hlisted]
    cases p.isItem fn <;> rfl
  unfold Program.entering
  refine ⟨?_, ?_, ?_, ?_, ?_, ?_⟩
  case refine_2 =>
    rw [hitem]
    cases entry <;> cases p.isItem fn <;> simp [withFn, addItem]
  all_goals cases entry <;> cases p.isItem fn <;> rfl

/-- The identities that are listed where nothing was listed before. -/
theorem ids (h : p.Enters q rs) (hp : p.items = []) :
    q.items.map Item.defId = itemIds p.crateName? rs := by
  rw [h.items, hp, List.nil_append, itemIds]

end Enters

end Program

/-- What a registration enters when it succeeds. -/
theorem Registration.Adds.enters {p q : Program} {r : Registration} (h : r.Adds p q) :
    p.Enters q [r] := by
  cases r with
  | fn decl entry =>
      obtain ⟨-, -, -, rfl⟩ := Program.add_fn_eq_ok.mp h
      exact .entering p decl entry
  | struct decl | trait decl =>
      obtain rfl := h
      exact ⟨rfl, rfl, rfl, rfl, rfl, rfl⟩
  | impl decl =>
      obtain ⟨-, rfl⟩ := Program.add_impl_eq_ok.mp h
      exact ⟨rfl, rfl, rfl, rfl, rfl, rfl⟩

/-- What registrations one after another enter. -/
theorem AddsAll.enters {p q : Program} {rs : List Registration} (h : AddsAll p q rs) :
    p.Enters q rs := by
  induction rs generalizing p with
  | nil =>
      obtain rfl := h
      exact .nothing p
  | cons r rs ih =>
      obtain ⟨middle, hr, hrs⟩ := h
      exact (Registration.Adds.enters hr).trans (ih hrs)

namespace Program.Enters

variable {p q : Program} {rs : List Registration}

/-- Where no two functions and no two items have the same identity, everything that is registered is
found. -/
theorem found (h : p.Enters q rs) (hfns : ((rs.filterMap fn?).map FnDecl.defId).Nodup)
    (hitems : (itemIds p.crateName? rs).Nodup) : ∀ r ∈ rs, r.Found q := by
  intro r hr
  cases r with
  | fn decl entry =>
      show q.fns.get? decl.defId = some decl
      rw [h.fns]
      exact Table.get_insert_all_of_mem hfns (List.mem_filterMap.mpr ⟨_, hr, rfl⟩)
  | struct decl =>
      show q.structs.get? decl.defId = some decl
      rw [h.structs]
      exact Table.get_insert_all_of_mem (hitems.sublist (struct_ids_sublist _ rs))
        (List.mem_filterMap.mpr ⟨_, hr, rfl⟩)
  | trait decl =>
      refine require_eq_ok.mpr ?_
      rw [h.traits]
      exact Table.get_insert_all_of_mem (hitems.sublist (trait_ids_sublist _ rs))
        (List.mem_filterMap.mpr ⟨_, hr, rfl⟩)
  | impl decl =>
      refine require_eq_ok.mpr ?_
      rw [h.impls]
      exact Table.get_insert_all_of_mem (hitems.sublist (impl_ids_sublist _ rs))
        (List.mem_filterMap.mpr ⟨_, hr, rfl⟩)

end Program.Enters

end MirAudit
