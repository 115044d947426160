import MirAudit.Program.Shorthand
import MirAudit.Proofs.Program.Registrations
import MirAudit.Proofs.Program.Resolution

/-!
# Histories of a program

A program may be filled and queried in any order. A registration that fails can have had a part of
its effect, and a resolution answers from what was interned before, perhaps when the program was
smaller. Still every instance that was ever resolved fits the program as it has become:
`resolved_fit`. The reason is that nothing which makes an instance fit is ever taken back, see
`Environment.Grows`; the invariant of a history is `History.Sound`.
-/

namespace MirAudit

/-! ## Instances that fit -/

namespace Environment

/-- The lookups of `env'` give all that those of `env` give. -/
structure Grows (env env' : Environment) : Prop where
  fnDecl : ∀ {id fn}, env.fnDecl id = some fn → env'.fnDecl id = some fn
  findImpl : ∀ {traitDef selfTy impl}, env.findImpl traitDef selfTy = some impl →
    env'.findImpl traitDef selfTy = some impl

/-- The function can be instantiated with the arguments: there is one for each of its parameters,
none of them holds a parameter, and every bound is met by an impl. -/
structure Admits (env : Environment) (fn : FnDecl) (args : List Ty) : Prop where
  arity : args.length = fn.generics.length
  concrete : ∀ arg ∈ args, arg.hasParam = false
  bounds : ∀ param arg, (param, arg) ∈ fn.generics.zip args →
    ∀ bound ∈ param.bounds, (env.findImpl bound arg).isSome = true

/-- The instance is of a known function, which can be instantiated with its arguments. -/
def Fits (env : Environment) (i : Instance) : Prop :=
  ∃ fn, env.fnDecl i.defId = some fn ∧ env.Admits fn i.args

variable {env env' : Environment}

theorem Grows.refl (env : Environment) : env.Grows env :=
  ⟨id, id⟩

theorem Grows.trans {env'' : Environment} (h : env.Grows env') (h' : env'.Grows env'') :
    env.Grows env'' :=
  ⟨fun hfn => h'.fnDecl (h.fnDecl hfn), fun himpl => h'.findImpl (h.findImpl himpl)⟩

/-- What an environment admits, it admits when it has grown. -/
theorem Admits.grow {fn : FnDecl} {args : List Ty} (h : env.Admits fn args)
    (hgrows : env.Grows env') : env'.Admits fn args where
  arity := h.arity
  concrete := h.concrete
  bounds param arg hparam bound hbound := by
    obtain ⟨impl, himpl⟩ := Option.isSome_iff_exists.mp (h.bounds param arg hparam bound hbound)
    exact Option.isSome_iff_exists.mpr ⟨impl, hgrows.findImpl himpl⟩

/-- What fits goes on to fit. -/
theorem Fits.grow {i : Instance} (h : env.Fits i) (hgrows : env.Grows env') : env'.Fits i := by
  obtain ⟨fn, hfn, hadmits⟩ := h
  exact ⟨fn, hgrows.fnDecl hfn, hadmits.grow hgrows⟩

/-- The bounds are met if each of them has an impl for its argument. -/
theorem check_bounds_eq_ok {fn : FnDecl} {args : List Ty} :
    env.checkBounds fn args = .ok () ↔ ∀ param arg, (param, arg) ∈ fn.generics.zip args →
      ∀ bound ∈ param.bounds, (env.findImpl bound arg).isSome = true := by
  unfold checkBounds
  dsimp only
  split
  next hfind =>
    refine iff_of_true rfl fun param arg hparam bound hbound => ?_
    have hmet := List.find?_eq_none.mp hfind (param.name, bound, arg)
      (List.mem_flatMap.mpr ⟨(param, arg), hparam, List.mem_map_of_mem hbound⟩)
    simpa [Option.isSome_iff_ne_none] using hmet
  next hfind =>
    refine iff_of_false (fun h => by cases h) fun h => ?_
    have hdemand := List.mem_of_find?_eq_some hfind
    obtain ⟨⟨param, arg⟩, hparam, hbounds⟩ := List.mem_flatMap.mp hdemand
    obtain ⟨_, hbound, ⟨⟩⟩ := List.mem_map.mp hbounds
    have hsome := h param arg hparam _ hbound
    have hnone := List.find?_some hfind
    simp [Option.isSome_iff_ne_none] at hsome hnone
    exact hsome hnone

/-- What is resolved fits, wherever the call of a trait method leads. -/
theorem resolve_fits (hid : ∀ {id fn}, env.fnDecl id = some fn → fn.defId = id) {id : DefId}
    {args : List Ty} {i : Instance} (h : env.resolve id args = .ok i) : env.Fits i := by
  obtain ⟨fn, hfn, harity, hbounds, -⟩ := resolve_cases hid h
  exact ⟨fn, hfn, harity, resolve_concrete h, check_bounds_eq_ok.mp hbounds⟩

end Environment

/-! ## Calls -/

/-- A change of a program: something is registered, which may fail, or a crate is made known. -/
inductive Change where
  | register (r : Registration)
  | addExternalCrate (name : String)

/-- The program after a change, whether it succeeds or fails. -/
def Change.apply (p : Program) : Change → Program
  | .register (.fn decl entry) => (p.addFn decl entry).2
  | .register (.struct decl) => p.addStruct decl
  | .register (.trait decl) => p.addTrait decl
  | .register (.impl decl) => (p.addImpl decl).2
  | .addExternalCrate name => (p.addExternalCrate name).2

/-- The program that some changes build, starting from a new one. -/
def Program.build (crateName? : Option String) (changes : List Change) : Program :=
  changes.foldl Change.apply { crateName? }

/-- A call on a program: a change, or a resolution. -/
inductive Call where
  | change (c : Change)
  | resolve (fn : DefId) (args : List Ty)

/-- What calls lead to: a program, and the instances that were resolved on the way. -/
structure History where
  program : Program
  resolved : List Instance := []

namespace History

/-- The history of a new program. -/
def start (crateName? : Option String) : History :=
  { program := { crateName? } }

/-- The history with one more call. -/
def call (s : History) : Call → History
  | .change c => { s with program := c.apply s.program }
  | .resolve fn args =>
    { program := (s.program.resolve fn args).2
      resolved := s.resolved ++ (s.program.resolve fn args).1.toOption.toList }

/-- The history with some more calls. -/
def run (s : History) (calls : List Call) : History :=
  calls.foldl call s

end History

namespace Program

variable {p : Program}

/-! ## What changes keep -/

/-- Every change, also a rejected one, leaves the declarations registered. -/
theorem Registered.apply (hp : p.Registered) (c : Change) : (c.apply p).Registered := by
  rcases c with (⟨decl, entry⟩ | decl | decl | decl) | name
  · exact hp.add_fn rfl
  · exact hp.add_struct decl
  · exact hp.add_trait decl
  · exact hp.add_impl rfl
  · exact hp.add_external_crate name

/-- A function that is added changes no impl. -/
theorem find_impl_add_fn {q : Program} {fn : FnDecl} {entry : Bool}
    {outcome : Except RegistrationFault Unit} (h : p.addFn fn entry = (outcome, q)) :
    q.findImpl = p.findImpl := by
  rcases add_fn_cases h with ⟨rfl, -⟩ | ⟨-, -, ⟨rfl, -⟩ | ⟨rfl, -⟩ | ⟨rfl, -⟩⟩ <;> rfl

/-- An impl is never replaced by a later one for the same type. -/
theorem find_impl_add_impl (p : Program) (decl : TraitImpl) {traitDef : DefId} {selfTy : Ty}
    {impl : TraitImpl} (h : p.findImpl traitDef selfTy = some impl) :
    (p.addImpl decl).2.findImpl traitDef selfTy = some impl := by
  unfold addImpl
  split
  next => exact h
  next hnew =>
    refine Table.get_insert_of_get ?_ h
    simpa [Table.contains] using hnew

theorem add_external_crate_spec (p : Program) (name : String) :
    (p.addExternalCrate name).2.environment = p.environment ∧
      (p.addExternalCrate name).2.interned = p.interned := by
  unfold addExternalCrate
  split <;> exact ⟨rfl, rfl⟩

/-- No change takes a function or an impl away. -/
theorem grows_apply (p : Program) (c : Change) : p.environment.Grows (c.apply p).environment := by
  rcases c with (⟨decl, entry⟩ | decl | decl | decl) | name
  · refine ⟨fun hfn => (extends_add_fn rfl).fns hfn, fun himpl => ?_⟩
    exact (congrFun₂ (find_impl_add_fn rfl) _ _).trans himpl
  · exact .refl _
  · exact .refl _
  · exact ⟨fun hfn => (extends_add_impl rfl).fns hfn, p.find_impl_add_impl decl⟩
  · exact (p.add_external_crate_spec name).1 ▸ .refl _

/-- No change interns anything. -/
theorem interned_apply (p : Program) (c : Change) : (c.apply p).interned = p.interned := by
  rcases c with (⟨decl, entry⟩ | decl | decl | decl) | name
  · exact (extends_add_fn rfl).interned
  · rfl
  · rfl
  · exact (extends_add_impl rfl).interned
  · exact (p.add_external_crate_spec name).2

/-- An instance that fits has a body, or is known to have none. -/
theorem body_of_fits {i : Instance} (h : p.environment.Fits i) :
    ∃ body?, p.bodyOf i = .ok body? := by
  obtain ⟨fn, hfn, hadmits⟩ := h
  exact ⟨_, body_of_eq hfn hadmits.arity⟩

theorem resolve_snd (p : Program) (fn : DefId) (args : List Ty) :
    (p.resolve fn args).2 = (p.intern fn args).2 := by
  unfold resolve
  split <;> next heq => rw [heq]

/-- What is resolved is the instance of the object that is interned. -/
theorem resolve_fst_eq_ok {fn : DefId} {args : List Ty} {i : Instance} :
    (p.resolve fn args).1 = .ok i ↔
      ∃ entry, (p.intern fn args).1 = .ok entry ∧ entry.inst = i := by
  unfold resolve
  split
  next heq => simp [heq]
  next heq => simp [heq]

end Program

/-! ## The intern table in a program that grows -/

/-- Every entry of the table fits. The entry need not be what its key resolves to. -/
def InternTable.Fits (t : InternTable) (env : Environment) : Prop :=
  ∀ id args entry, t.get? id args = some entry → env.Fits entry.inst

namespace InternTable.Fits

variable {t : InternTable} {env : Environment} {id : DefId} {args : List Ty}

/-- A table fits with one more instance that does. -/
theorem insert {entry : Interned} {next : Nat} (h : t.Fits env) (hentry : env.Fits entry.inst) :
    (InternTable.mk (t.entries.insert (id, args) entry) next).Fits env := by
  intro other others found hfound
  unfold InternTable.get? at hfound
  rw [Table.get?_insert] at hfound
  split at hfound
  · cases hfound
    exact hentry
  · exact h _ _ _ hfound

/-- Interning what fits gives what fits, be it the new instance or one that was known. -/
theorem intern {i : Instance} (h : t.Fits env) (hi : env.Fits i) (id : DefId) (args : List Ty) :
    env.Fits (t.intern id args i).1.inst ∧ (t.intern id args i).2.Fits env := by
  unfold InternTable.intern
  cases hknown : t.get? i.defId i.args with
  | some known => exact ⟨h _ _ _ hknown, h.insert (h _ _ _ hknown)⟩
  | none =>
      let fresh : Interned := ⟨i, t.nextTicket⟩
      have hfresh : env.Fits fresh.inst := hi
      have hfirst : (InternTable.mk (t.entries.insert (i.defId, i.args) fresh)
          (t.nextTicket + 1)).Fits env := h.insert hfresh
      exact ⟨hi, hfirst.insert hfresh⟩

end InternTable.Fits

namespace History

/-- What every history keeps: the program is filled by registrations, and what is interned or was
resolved fits. -/
structure Sound (s : History) : Prop where
  registered : s.program.Registered
  interned : s.program.interned.Fits s.program.environment
  resolved : ∀ i ∈ s.resolved, s.program.environment.Fits i

theorem Sound.start (crateName? : Option String) : (start crateName?).Sound where
  registered := .empty crateName?
  interned id args entry h := by cases h
  resolved i hi := absurd hi List.not_mem_nil

variable {s : History}

/-- What is asked for fits, whether it is known or new, and so does all that is interned then. -/
theorem Sound.intern (hs : s.Sound) (fn : DefId) (args : List Ty) :
    (∀ entry, (s.program.intern fn args).1 = .ok entry →
        s.program.environment.Fits entry.inst) ∧
      (∃ table : InternTable, (s.program.intern fn args).2 = { s.program with interned := table } ∧
        table.Fits s.program.environment) := by
  unfold Program.intern
  cases hknown : s.program.interned.get? fn args with
  | some known =>
      refine ⟨?_, s.program.interned, rfl, hs.interned⟩
      rintro _ ⟨⟩
      exact hs.interned _ _ _ hknown
  | none =>
      dsimp only
      cases hresolve : s.program.environment.resolve fn args with
      | error fault =>
          refine ⟨?_, s.program.interned, rfl, hs.interned⟩
          rintro _ ⟨⟩
      | ok i =>
          have hi := Environment.resolve_fits hs.registered.def_id hresolve
          obtain ⟨hentry, htable⟩ := hs.interned.intern hi fn args
          refine ⟨?_, _, rfl, htable⟩
          rintro _ ⟨⟩
          exact hentry

/-- A resolution keeps a history sound. -/
theorem Sound.resolve (hs : s.Sound) (fn : DefId) (args : List Ty) :
    (s.call (.resolve fn args)).Sound := by
  obtain ⟨hanswer, table, hprogram, htable⟩ := hs.intern fn args
  rw [← Program.resolve_snd] at hprogram
  refine ⟨?_, ?_, fun i hi => ?_⟩
  · show (s.program.resolve fn args).2.Registered
    rw [hprogram]
    exact { hs.registered with }
  · show (s.program.resolve fn args).2.interned.Fits (s.program.resolve fn args).2.environment
    rw [hprogram]
    exact htable
  · show (s.program.resolve fn args).2.environment.Fits i
    rw [hprogram]
    rcases List.mem_append.mp hi with hi | hi
    · exact hs.resolved i hi
    · have hfound : (s.program.resolve fn args).1 = .ok i := by
        cases houtcome : (s.program.resolve fn args).1 with
        | error fault =>
            rw [houtcome] at hi
            exact absurd hi List.not_mem_nil
        | ok j =>
            rw [houtcome] at hi
            rw [List.mem_singleton.mp hi]
      obtain ⟨entry, hentry, rfl⟩ := Program.resolve_fst_eq_ok.mp hfound
      exact hanswer entry hentry

/-- Every call keeps the history sound. -/
theorem Sound.call (hs : s.Sound) (c : Call) : (s.call c).Sound := by
  cases c with
  | change c =>
      have hgrows := s.program.grows_apply c
      refine ⟨hs.registered.apply c, fun id args entry h => ?_, fun i hi => ?_⟩
      · replace h : (c.apply s.program).interned.get? id args = some entry := h
        rw [Program.interned_apply] at h
        exact (hs.interned id args entry h).grow hgrows
      · exact (hs.resolved i hi).grow hgrows
  | resolve fn args => exact hs.resolve fn args

/-- Any calls in a row keep a history sound. -/
theorem Sound.run (hs : s.Sound) (calls : List Call) : (s.run calls).Sound := by
  induction calls generalizing s with
  | nil => exact hs
  | cons c calls ih => exact ih (hs.call c)

/-- What was resolved stays on record. -/
theorem resolved_subset_run (s : History) (calls : List Call) :
    s.resolved ⊆ (s.run calls).resolved := by
  induction calls generalizing s with
  | nil => exact List.Subset.refl _
  | cons c calls ih =>
      refine List.Subset.trans ?_ (ih (s.call c))
      cases c with
      | change => exact List.Subset.refl _
      | resolve => exact List.subset_append_left _ _

end History

/-- Whatever is called on a new program, every instance that was resolved on the way fits the
program as it is and as it becomes by further calls, and asking for its body does not fail. -/
theorem resolved_fit (crateName? : Option String) (calls more : List Call) :
    ∀ i ∈ ((History.start crateName?).run calls).resolved,
      ((History.start crateName?).run (calls ++ more)).program.environment.Fits i ∧
        ∃ body?, ((History.start crateName?).run (calls ++ more)).program.bodyOf i = .ok body? := by
  intro i hi
  have hsound := (History.Sound.start crateName?).run (calls ++ more)
  have hrecord : i ∈ ((History.start crateName?).run (calls ++ more)).resolved := by
    rw [History.run, List.foldl_append]
    exact History.resolved_subset_run _ more hi
  have hfits := hsound.resolved i hrecord
  exact ⟨hfits, Program.body_of_fits hfits⟩

/-! ### Traits that cross -/

/-- Two traits: the impl of `Log` for `bool` names the method of the trait `Show`. -/
def crossing : List Change :=
  let i32 := Ty.scalar "i32"
  let showDef : DefId := ⟨"main", "Show"⟩
  let showFn : DefId := ⟨"main", "Show::show"⟩
  let showI32 : DefId := ⟨"main", "<i32 as Show>::show"⟩
  let logDef : DefId := ⟨"main", "Log"⟩
  let self : GenericParam := { name := "Self" }
  [.register (.trait { defId := showDef, methods := ["show"] }),
    .register (.fn { defId := showFn, generics := [self], traitDef := some showDef } false),
    .register (.fn { defId := showI32, body := some (.returning .unit []) } false),
    .register (.impl
      { defId := ⟨"main", "<i32 as Show>"⟩, traitDef := showDef, selfTy := i32
        methods := [("show", showI32)] }),
    .register (.trait { defId := logDef, methods := ["log"] }),
    .register (.fn
      { defId := ⟨"main", "Log::log"⟩, generics := [self, { name := "T", bounds := [showDef] }]
        traitDef := some logDef } false),
    .register (.impl
      { defId := ⟨"main", "<bool as Log>"⟩, traitDef := logDef, selfTy := .scalar "bool"
        methods := [("log", showFn)] })]

/-- The method of `Show` is handed out for `Log`, and goes on to fit when registering a function
has failed and another impl has come in. -/
theorem resolved_fit_crossing :
    let i : Instance := ⟨⟨"main", "Show::show"⟩, [.scalar "i32"]⟩
    let calls : List Call := crossing.map .change ++
      [.resolve ⟨"main", "Log::log"⟩ [.scalar "bool", .scalar "i32"]]
    let more : List Call :=
      [.change (.register (.fn { defId := i.defId } true)),
        .change (.register (.impl
          { defId := ⟨"main", "<bool as Show>"⟩, traitDef := ⟨"main", "Show"⟩
            selfTy := .scalar "bool" }))]
    i ∈ ((History.start (some "main")).run calls).resolved ∧
      ((History.start (some "main")).run (calls ++ more)).program.environment.Fits i ∧
      ∃ body?, ((History.start (some "main")).run (calls ++ more)).program.bodyOf i = .ok body? := by
  intro i calls more
  have hi : i ∈ ((History.start (some "main")).run calls).resolved := by decide +kernel
  exact ⟨hi, resolved_fit (some "main") calls more i hi⟩

end MirAudit
