import MirAudit.Proofs.Program.Histories

/-!
# The tables of a program agree

Functions, items, impls and crates stand in tables of their own, and a registration that fails may
have changed some of them. Still the tables agree after every history of registrations:
`listed_build`. Which functions are registered, and in what order, is read off the calls alone by
`registeredFns`; the invariant is `InStep`, and `InStep.apply` keeps it through one call.
-/

namespace MirAudit

/-- The registered functions after a call, when `known` were registered before. A function comes
last, unless it is extern with a body or one of its identity is known; whether the call then fails
over the entry point makes no difference. -/
def Change.enter (known : List FnDecl) : Change → List FnDecl
  | .register (.fn fn _) =>
    if (fn.isExtern && fn.body.isSome) || known.any fun other => other.defId = fn.defId then known
    else known ++ [fn]
  | _ => known

/-- The functions that calls on a new program register, in order of registration. -/
def registeredFns (changes : List Change) : List FnDecl :=
  changes.foldl Change.enter []

namespace Program

variable {p q : Program} {fns : List FnDecl}

/-- The tables of a program with these functions, in order of registration, agree: the function
items list those that are items, an impl stands under what it implements, and the external crates
are numbered from 1 and have names of their own. -/
structure InStep (p : Program) (fns : List FnDecl) : Prop where
  registered : p.Registered
  values : p.fns.values = fns
  listed : p.items.filter (fun item => item.kind = .fn) = (fns.filter p.isItem).map fnItem
  implIndex : p.implIndex.KeyedBy fun impl => (impl.traitDef, impl.selfTy)
  ids : p.externals.map Crate.id = (List.range' 1 p.externals.length).map Int.ofNat
  names : ((p.localCrate?.toList ++ p.externals).map Crate.name).Nodup

namespace InStep

theorem empty (crateName? : Option String) : InStep { crateName? } [] where
  registered := .empty crateName?
  values := rfl
  listed := rfl
  implIndex := .empty _
  ids := rfl
  names := by cases crateName? <;> simp [localCrate?]

/-- A function is registered exactly if it is found under its identity. -/
theorem mem_iff (hp : p.InStep fns) {fn : FnDecl} :
    fn ∈ fns ↔ p.fnDecl fn.defId = some fn := by
  rw [← hp.values]
  exact hp.registered.fns.mem_values

/-- An identity is known exactly if a registered function has it. -/
theorem any_iff (hp : p.InStep fns) (id : DefId) :
    (fns.any fun other => other.defId = id) = p.fns.contains id := by
  rw [Bool.eq_iff_iff, List.any_eq_true, Table.contains, Option.isSome_iff_exists]
  constructor
  · rintro ⟨other, hother, hid⟩
    obtain rfl := of_decide_eq_true hid
    exact ⟨other, hp.mem_iff.mp hother⟩
  · rintro ⟨fn, hfn⟩
    obtain rfl := hp.registered.def_id hfn
    exact ⟨fn, hp.mem_iff.mpr hfn, decide_eq_true rfl⟩

/-- No two registered functions have the same identity. -/
theorem distinct (hp : p.InStep fns) : (fns.map FnDecl.defId).Nodup := by
  have hkeys : p.fns.entries.map Prod.fst = fns.map FnDecl.defId := by
    rw [← hp.values, Table.values, List.map_map]
    exact List.map_congr_left hp.registered.fns.own
  exact hkeys ▸ hp.registered.fns.distinct

/-- Tables that do not hold functions or crates may change, as long as they go on to agree. -/
theorem of_eq (hp : p.InStep fns) (hq : q.Registered) (hcrate : q.crateName? = p.crateName?)
    (hexternals : q.externals = p.externals) (hfns : q.fns = p.fns)
    (hitems : q.items.filter (fun item => item.kind = .fn) =
      p.items.filter fun item => item.kind = .fn)
    (hindex : q.implIndex.KeyedBy fun impl => (impl.traitDef, impl.selfTy)) : q.InStep fns where
  registered := hq
  values := by rw [hfns, hp.values]
  listed := by
    have hsame : q.isItem = p.isItem := by
      funext fn
      rw [isItem, isItem, hcrate]
    rw [hitems, hp.listed, hsame]
  implIndex := hindex
  ids := by rw [hexternals, hp.ids]
  names := by
    rw [localCrate?, hcrate, hexternals]
    exact hp.names

/-- One more item that is no function leaves the function items alone. -/
theorem filter_add_item {item : Item} (h : item.kind ≠ .fn) :
    (p.addItem item).items.filter (fun item => item.kind = .fn) =
      p.items.filter fun item => item.kind = .fn := by
  simp [addItem, h]

/-- A new function comes last among those registered. -/
theorem with_fn (hp : p.InStep fns) {fn : FnDecl} (hnew : p.fns.contains fn.defId = false) :
    (p.withFn fn).fns.values = fns ++ [fn] := by
  rw [← hp.values]
  refine Table.values_insert_new ?_
  simpa [Table.contains] using hnew

/-- Whether it fails or not, registering a function keeps the tables in step: the function is
entered if it is new and not extern with a body, and listed in the same call if it is an item. -/
theorem add_fn (hp : p.InStep fns) (fn : FnDecl) (entry : Bool) :
    (p.addFn fn entry).2.InStep (Change.enter fns (.register (.fn fn entry))) := by
  have hregistered : (p.addFn fn entry).2.Registered := hp.registered.add_fn rfl
  rw [add_fn_snd] at hregistered ⊢
  simp only [Change.enter, hp.any_iff]
  by_cases hrefused : (fn.isExtern && fn.body.isSome || p.fns.contains fn.defId) = true
  · rw [if_pos hrefused, if_pos hrefused]
    exact hp
  · rw [if_neg hrefused] at hregistered
    rw [if_neg hrefused, if_neg hrefused]
    have hnew : p.fns.contains fn.defId = false := by
      cases hcontains : p.fns.contains fn.defId <;> simp [hcontains] at hrefused ⊢
    have hlisted := hp.listed
    by_cases hitem : p.isItem fn = true
    · rw [if_pos hitem] at hregistered ⊢
      refine ⟨hregistered, hp.with_fn hnew, ?_, hp.implIndex, hp.ids, hp.names⟩
      show (p.items ++ [fnItem fn]).filter _ = ((fns ++ [fn]).filter p.isItem).map fnItem
      rw [List.filter_append, List.filter_append, List.map_append, hp.listed]
      simp [hitem, fnItem]
    · rw [if_neg hitem] at hregistered ⊢
      refine ⟨hregistered, hp.with_fn hnew, ?_, hp.implIndex, hp.ids, hp.names⟩
      show p.items.filter _ = ((fns ++ [fn]).filter p.isItem).map fnItem
      rw [List.filter_append, List.map_append, hp.listed]
      simp [hitem]

theorem add_impl (hp : p.InStep fns) (decl : TraitImpl) : (p.addImpl decl).2.InStep fns := by
  have hregistered : (p.addImpl decl).2.Registered := hp.registered.add_impl rfl
  unfold addImpl at hregistered ⊢
  split
  next => exact hp
  next hnew =>
    rw [if_neg hnew] at hregistered
    exact hp.of_eq hregistered rfl rfl rfl (filter_add_item (by simp)) (hp.implIndex.insert decl)

/-- A crate that is new gets the next number; one that is known stays as it is. -/
theorem add_external_crate (hp : p.InStep fns) (name : String) :
    (p.addExternalCrate name).2.InStep fns := by
  have hregistered := hp.registered.add_external_crate name
  unfold addExternalCrate at hregistered ⊢
  cases hfind : p.findCrate name with
  | some known => exact hp
  | none =>
      rw [hfind] at hregistered
      refine ⟨hregistered, hp.values, hp.listed, hp.implIndex, ?_, ?_⟩
      · simp [List.range'_concat, hp.ids, Nat.add_comm]
      · have hfresh : ∀ crate ∈ p.localCrate?.toList ++ p.externals, crate.name ≠ name :=
          fun crate hcrate => by simpa using List.find?_eq_none.mp hfind crate hcrate
        show ((p.localCrate?.toList ++ (p.externals ++ [_])).map Crate.name).Nodup
        rw [← List.append_assoc, List.map_append]
        refine List.nodup_append.mpr ⟨hp.names, by simp, fun known hknown other hother => ?_⟩
        obtain ⟨crate, hcrate, rfl⟩ := List.mem_map.mp hknown
        rw [List.mem_singleton.mp hother]
        exact hfresh crate hcrate

/-- Every call keeps the tables in step, whether it succeeds or fails. -/
theorem apply (hp : p.InStep fns) (c : Change) : (c.apply p).InStep (c.enter fns) := by
  rcases c with (⟨decl, entry⟩ | decl | decl | decl) | name
  · exact hp.add_fn decl entry
  · exact hp.of_eq (hp.registered.add_struct decl) rfl rfl rfl (filter_add_item (by simp))
      hp.implIndex
  · exact hp.of_eq (hp.registered.add_trait decl) rfl rfl rfl (filter_add_item (by simp))
      hp.implIndex
  · exact hp.add_impl decl
  · exact hp.add_external_crate name

/-- The tables of a program that some calls built are in step. -/
theorem build (crateName? : Option String) (changes : List Change) :
    (build crateName? changes).InStep (registeredFns changes) := by
  suffices hrun : ∀ {p : Program} {fns : List FnDecl}, p.InStep fns →
      (changes.foldl Change.apply p).InStep (changes.foldl Change.enter fns) from
    hrun (.empty crateName?)
  induction changes with
  | nil => exact id
  | cons c changes ih => exact fun hp => ih (hp.apply c)

end InStep

theorem crate_name_apply (p : Program) (c : Change) : (c.apply p).crateName? = p.crateName? := by
  rcases c with (⟨decl, entry⟩ | decl | decl | decl) | name
  · exact (extends_add_fn rfl).crateName
  · rfl
  · rfl
  · exact (extends_add_impl rfl).crateName
  · show (p.addExternalCrate name).2.crateName? = _
    unfold addExternalCrate
    split <;> rfl

theorem crate_name_build (crateName? : Option String) (changes : List Change) :
    (build crateName? changes).crateName? = crateName? := by
  suffices hrun : ∀ p : Program, (changes.foldl Change.apply p).crateName? = p.crateName? from
    hrun { crateName? }
  induction changes with
  | nil => exact fun _ => rfl
  | cons c changes ih => exact fun p => (ih (c.apply p)).trans (p.crate_name_apply c)

/-- More calls take no function and no impl away. -/
theorem grows_build (crateName? : Option String) (changes more : List Change) :
    (build crateName? changes).environment.Grows
      (build crateName? (changes ++ more)).environment := by
  rw [build, build, List.foldl_append]
  generalize changes.foldl Change.apply { crateName? } = p
  induction more generalizing p with
  | nil => exact .refl _
  | cons c more ih => exact (p.grows_apply c).trans (ih (c.apply p))

end Program

/-- After any calls that register something, failed ones included, the function items are the
registered functions of the local crate with a body, each once and in order of registration; the
entry point is one of the items; an impl is found only for its own trait and type, and stays found;
and each crate is found under its name, the external ones being numbered from 1. -/
theorem listed_build (crateName? : Option String) (changes : List Change) :
    let p := Program.build crateName? changes
    let fnItems := p.items.filter fun item => item.kind = .fn
    p.localItems =
        (if crateName?.isSome then .ok p.items else .error (.setup Program.noLocalCrate)) ∧
      fnItems = ((registeredFns changes).filter fun fn =>
        crateName? = some fn.defId.crate && fn.body.isSome).map Program.fnItem ∧
      (∀ fn, fn ∈ registeredFns changes ↔ p.fnDecl fn.defId = some fn) ∧
      (fnItems.map Item.defId).Nodup ∧
      (∀ item ∈ fnItems, p.bodyOfItem item ≠ none) ∧
      (∀ item, p.entry = some item → item ∈ p.items) ∧
      (∀ traitDef selfTy impl, p.findImpl traitDef selfTy = some impl →
        impl.traitDef = traitDef ∧ impl.selfTy = selfTy ∧
          ∀ more, (Program.build crateName? (changes ++ more)).findImpl traitDef selfTy =
            some impl) ∧
      p.externals.map Crate.id = (List.range' 1 p.externals.length).map Int.ofNat ∧
      (crateName?.toList ++ p.externals.map Crate.name).Nodup ∧
      ∀ crate ∈ p.localCrate?.toList ++ p.externals, p.findCrate crate.name = some crate := by
  intro p fnItems
  have hp : p.InStep (registeredFns changes) := .build crateName? changes
  have hcrate : p.crateName? = crateName? := Program.crate_name_build crateName? changes
  have hlisted : fnItems = ((registeredFns changes).filter p.isItem).map Program.fnItem := hp.listed
  refine ⟨?_, ?_, fun fn => hp.mem_iff, ?_, fun item hitem => ?_, fun item hentry => ?_,
    fun traitDef selfTy impl himpl => ?_, hp.ids, ?_, fun crate hmem => ?_⟩
  · show p.localCrate.map _ = _
    rw [Program.localCrate, Program.localCrate?, hcrate]
    cases crateName? <;> rfl
  · have hitem : p.isItem = fun fn => crateName? = some fn.defId.crate && fn.body.isSome := by
      funext fn
      rw [Program.isItem, hcrate]
    rw [hlisted, hitem]
  · have hids : fnItems.map Item.defId =
        ((registeredFns changes).filter p.isItem).map FnDecl.defId := by
      rw [hlisted, List.map_map]
      rfl
    rw [hids]
    exact hp.distinct.sublist (List.filter_sublist.map _)
  · obtain ⟨hmem, hkind⟩ := List.mem_filter.mp hitem
    obtain ⟨fn, hfn, hbody⟩ := hp.registered.fn_item item hmem (of_decide_eq_true hkind)
    rw [Program.bodyOfItem, if_pos (of_decide_eq_true hkind), hfn]
    exact Option.isSome_iff_ne_none.mp hbody
  · exact (hp.registered.entry_item item hentry).1
  · have hkey := hp.implIndex.key_of_get himpl
    rw [Prod.mk.injEq] at hkey
    exact ⟨hkey.1, hkey.2, fun more => (Program.grows_build crateName? changes more).findImpl himpl⟩
  · have hnames := hp.names
    rw [List.map_append, Program.localCrate?, hcrate] at hnames
    cases crateName? <;> exact hnames
  · exact Program.find_crate_of_names hp.names hmem

end MirAudit
