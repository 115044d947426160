import MirAudit.Program.Basic
import MirAudit.Proofs.Table

/-!
# What registration keeps

`Program.Registered` holds of every program that is filled by registrations, whether these succeed
or fail: each table is keyed by what it holds, every function item is a registered function with a
body, and the entry point is one of the items. `Extends` says what a registration never changes.
Read `add_fn_cases` first: it lists what registering a function can do.
-/

namespace MirAudit.Program

/-- The program that also has a function, without listing it. -/
def withFn (p : Program) (fn : FnDecl) : Program :=
  { p with fns := p.fns.insert fn.defId fn }

/-- What registering a function can do. Either nothing happens; or a new function is entered, and
listed if it is an item, and may then become the entry point. -/
theorem add_fn_cases {p q : Program} {fn : FnDecl} {entry : Bool}
    {outcome : Except RegistrationFault Unit} (h : p.addFn fn entry = (outcome, q)) :
    (q = p ∧ ∃ fault, outcome = .error fault) ∨
      p.fnDecl fn.defId = none ∧ (fn.isExtern = true → fn.body = none) ∧
        (q = p.withFn fn ∧ p.isItem fn = false ∨
          q = (p.withFn fn).addItem (fnItem fn) ∧ p.isItem fn = true ∨
          q = { (p.withFn fn).addItem (fnItem fn) with entry := some (fnItem fn) } ∧
            p.isItem fn = true) := by
  unfold addFn at h
  by_cases hknown : p.fns.contains fn.defId = true
  · rw [if_pos hknown] at h
    cases h
    exact Or.inl ⟨rfl, _, rfl⟩
  · have hnew : p.fnDecl fn.defId = none := by
      simpa [Table.contains, fnDecl] using hknown
    rw [if_neg hknown] at h
    by_cases hforeign : (fn.isExtern && fn.body.isSome) = true
    · rw [if_pos hforeign] at h
      cases h
      exact Or.inl ⟨rfl, _, rfl⟩
    · have hbody : fn.isExtern = true → fn.body = none := by
        simpa using hforeign
      rw [if_neg hforeign] at h
      refine Or.inr ⟨hnew, hbody, ?_⟩
      by_cases hitem : p.isItem fn = true
      · rw [if_pos hitem] at h
        refine Or.inr ?_
        split at h
        · cases h
          exact Or.inl ⟨rfl, hitem⟩
        · split at h
          · cases h
            exact Or.inl ⟨rfl, hitem⟩
          · cases h
            exact Or.inr ⟨rfl, hitem⟩
      · rw [if_neg hitem] at h
        refine Or.inl ⟨?_, by simpa using hitem⟩
        split at h <;> cases h <;> rfl

/-- The program after registering a function, whether this succeeds or fails. -/
theorem add_fn_snd (p : Program) (fn : FnDecl) (entry : Bool) :
    (p.addFn fn entry).2 =
      if fn.isExtern && fn.body.isSome || p.fns.contains fn.defId then p
      else if p.isItem fn then
        { (p.withFn fn).addItem (fnItem fn) with
          entry := if entry && p.entry.isNone then some (fnItem fn) else p.entry }
      else p.withFn fn := by
  unfold addFn
  cases p.fns.contains fn.defId with
  | true => simp
  | false =>
      cases fn.isExtern && fn.body.isSome with
      | true => rfl
      | false =>
          cases p.isItem fn <;> cases entry <;> cases hentry : p.entry <;>
            simp [withFn, addItem, hentry]

/-- Where no two crates have the same name, each is found under its name. -/
theorem find_crate_of_names {p : Program} {crate : Crate}
    (hnames : ((p.localCrate?.toList ++ p.externals).map Crate.name).Nodup)
    (h : crate ∈ p.localCrate?.toList ++ p.externals) : p.findCrate crate.name = some crate := by
  obtain ⟨before, behind, hcrates⟩ := List.append_of_mem h
  rw [hcrates, List.map_append, List.map_cons] at hnames
  unfold findCrate
  rw [hcrates, List.find?_eq_some_iff_append]
  refine ⟨decide_eq_true rfl, before, behind, rfl, fun other hother => ?_⟩
  have hne : other.name ≠ crate.name :=
    (List.nodup_append.mp hnames).2.2 _ (List.mem_map_of_mem hother) _ List.mem_cons_self
  simpa using hne

/-! ## Extensions -/

/-- `q` comes from `p` by registering items: its crates and its intern table are those of `p`, and
it has every function of `p`. -/
structure Extends (p q : Program) : Prop where
  crateName : q.crateName? = p.crateName?
  externals : q.externals = p.externals
  interned : q.interned = p.interned
  fns : ∀ {id fn}, p.fnDecl id = some fn → q.fnDecl id = some fn

/-- A program extends itself. -/
theorem Extends.refl (p : Program) : p.Extends p :=
  ⟨rfl, rfl, rfl, id⟩

/-- What is kept by two steps is kept by both together. -/
theorem Extends.trans {p q r : Program} (hpq : p.Extends q) (hqr : q.Extends r) : p.Extends r where
  crateName := hqr.crateName.trans hpq.crateName
  externals := hqr.externals.trans hpq.externals
  interned := hqr.interned.trans hpq.interned
  fns h := hqr.fns (hpq.fns h)

/-- A program extends another that differs from it only in what is no function. -/
theorem Extends.of_eq {p q : Program} (hcrateName : q.crateName? = p.crateName?)
    (hexternals : q.externals = p.externals) (hinterned : q.interned = p.interned)
    (hfns : q.fns = p.fns) : p.Extends q :=
  ⟨hcrateName, hexternals, hinterned, fun h => by rwa [fnDecl, hfns]⟩

/-- A function under a new identity takes the place of none. -/
theorem extends_with_fn {p : Program} {fn : FnDecl} (hnew : p.fnDecl fn.defId = none) :
    p.Extends (p.withFn fn) :=
  ⟨rfl, rfl, rfl, fun h => Table.get_insert_of_get hnew h⟩

/-- One more item in the list changes nothing that is found. -/
theorem extends_add_item (p : Program) (item : Item) : p.Extends (p.addItem item) :=
  .of_eq rfl rfl rfl rfl

/-- Registering a function keeps the functions and the crates, also when it is rejected. -/
theorem extends_add_fn {p q : Program} {fn : FnDecl} {entry : Bool}
    {outcome : Except RegistrationFault Unit} (h : p.addFn fn entry = (outcome, q)) :
    p.Extends q := by
  rcases add_fn_cases h with ⟨rfl, -⟩ | ⟨hnew, -, ⟨rfl, -⟩ | ⟨rfl, -⟩ | ⟨rfl, -⟩⟩
  · exact .refl _
  · exact extends_with_fn hnew
  · exact (extends_with_fn hnew).trans (extends_add_item _ _)
  · exact (extends_with_fn hnew).trans (.of_eq rfl rfl rfl rfl)

/-- Registering a struct keeps the functions and the crates. -/
theorem extends_add_struct (p : Program) (decl : StructDecl) : p.Extends (p.addStruct decl) :=
  .of_eq rfl rfl rfl rfl

/-- Registering a trait keeps the functions and the crates. -/
theorem extends_add_trait (p : Program) (decl : TraitDecl) : p.Extends (p.addTrait decl) :=
  .of_eq rfl rfl rfl rfl

/-- Registering an impl keeps the functions and the crates, also when it is rejected. -/
theorem extends_add_impl {p q : Program} {decl : TraitImpl}
    {outcome : Except RegistrationFault Unit} (h : p.addImpl decl = (outcome, q)) :
    p.Extends q := by
  unfold addImpl at h
  split at h <;> cases h
  · exact .refl p
  · exact .of_eq rfl rfl rfl rfl

/-! ## The invariant -/

/-- What holds of every program that was filled by registrations. -/
structure Registered (p : Program) : Prop where
  fns : p.fns.KeyedBy FnDecl.defId
  traits : p.traits.KeyedBy TraitDecl.defId
  impls : p.impls.KeyedBy TraitImpl.defId
  extern_body : ∀ {id fn}, p.fnDecl id = some fn → fn.isExtern = true → fn.body = none
  fn_item : ∀ item ∈ p.items, item.kind = .fn →
    ∃ fn, p.fnDecl item.defId = some fn ∧ fn.body.isSome = true
  entry_item : ∀ item, p.entry = some item → item ∈ p.items ∧ item.kind = .fn

namespace Registered

variable {p q : Program}

/-- Nothing is registered at the start. -/
theorem empty (crateName? : Option String) : Registered { crateName? } where
  fns := .empty _
  traits := .empty _
  impls := .empty _
  extern_body h := by simp [fnDecl, Table.get?] at h
  fn_item _ h := absurd h List.not_mem_nil
  entry_item _ h := by cases h

/-- The identity under which a function is found is its own. -/
theorem def_id (hp : p.Registered) {id : DefId} {fn : FnDecl} (h : p.fnDecl id = some fn) :
    fn.defId = id :=
  hp.fns.key_of_get h

/-- A new function may be entered, unless it is extern and has a body. -/
theorem with_fn {fn : FnDecl} (hp : p.Registered) (hnew : p.fnDecl fn.defId = none)
    (hbody : fn.isExtern = true → fn.body = none) : (p.withFn fn).Registered where
  fns := hp.fns.insert fn
  traits := hp.traits
  impls := hp.impls
  extern_body {id found} h := by
    rw [fnDecl, withFn, Table.get?_insert] at h
    split at h
    · cases h
      exact hbody
    · exact hp.extern_body h
  fn_item item hitem hkind := by
    obtain ⟨found, hfound, hsome⟩ := hp.fn_item item hitem hkind
    exact ⟨found, (extends_with_fn hnew).fns hfound, hsome⟩
  entry_item := hp.entry_item

/-- An item may be listed if it is no function, or a registered one with a body. -/
theorem add_item {item : Item} (hp : p.Registered)
    (h : item.kind = .fn → ∃ fn, p.fnDecl item.defId = some fn ∧ fn.body.isSome = true) :
    (p.addItem item).Registered where
  fns := hp.fns
  traits := hp.traits
  impls := hp.impls
  extern_body := hp.extern_body
  fn_item other hother hkind := by
    rcases List.mem_append.mp hother with hother | hother
    · exact hp.fn_item other hother hkind
    · obtain rfl := List.mem_singleton.mp hother
      exact h hkind
  entry_item entry hentry := by
    obtain ⟨hmem, hkind⟩ := hp.entry_item entry hentry
    exact ⟨List.mem_append_left _ hmem, hkind⟩

/-- A function and its item are entered together. -/
theorem list_fn {fn : FnDecl} (hp : p.Registered) (hnew : p.fnDecl fn.defId = none)
    (hbody : fn.isExtern = true → fn.body = none) (hitem : p.isItem fn = true) :
    ((p.withFn fn).addItem (fnItem fn)).Registered := by
  refine (hp.with_fn hnew hbody).add_item fun _ => ⟨fn, ?_, ?_⟩
  · rw [fnDecl, withFn, Table.get?_insert]
    exact if_pos rfl
  · unfold isItem at hitem
    rw [Bool.and_eq_true] at hitem
    exact hitem.2

/-- Registering a function, whether it succeeds or not. -/
theorem add_fn {fn : FnDecl} {entry : Bool} {outcome : Except RegistrationFault Unit}
    (hp : p.Registered) (h : p.addFn fn entry = (outcome, q)) : q.Registered := by
  rcases add_fn_cases h with ⟨rfl, -⟩ | ⟨hnew, hbody, ⟨rfl, -⟩ | ⟨rfl, hitem⟩ | ⟨rfl, hitem⟩⟩
  · exact hp
  · exact hp.with_fn hnew hbody
  · exact hp.list_fn hnew hbody hitem
  · have hlisted := hp.list_fn hnew hbody hitem
    refine { hlisted with entry_item := ?_ }
    rintro item ⟨⟩
    exact ⟨List.mem_append_right _ (List.mem_singleton_self _), rfl⟩

/-- Registering a struct. -/
theorem add_struct (hp : p.Registered) (decl : StructDecl) : (p.addStruct decl).Registered := by
  refine add_item (p := { p with structs := p.structs.insert decl.defId decl }) ?_ nofun
  exact { hp with }

/-- Registering a trait. -/
theorem add_trait (hp : p.Registered) (decl : TraitDecl) : (p.addTrait decl).Registered := by
  refine add_item (p := { p with traits := p.traits.insert decl.defId decl }) ?_ nofun
  exact { hp with traits := hp.traits.insert decl }

/-- Registering an impl, whether it succeeds or not. -/
theorem add_impl {decl : TraitImpl} {outcome : Except RegistrationFault Unit} (hp : p.Registered)
    (h : p.addImpl decl = (outcome, q)) : q.Registered := by
  unfold addImpl at h
  split at h <;> cases h
  · exact hp
  · refine add_item ?_ nofun
    exact { hp with impls := hp.impls.insert decl }

/-- Declaring a crate. -/
theorem add_external_crate (hp : p.Registered) (name : String) :
    (p.addExternalCrate name).2.Registered := by
  unfold addExternalCrate
  split
  · exact hp
  · exact { hp with }

end Registered

end MirAudit.Program
