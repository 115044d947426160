import MirAudit.Proofs.Program.Histories

/-!
# Registrations that are rejected

A registration may be rejected over what is known already, and then nothing has happened. The entry
point is looked at last, when the function has been entered: a function that is rejected as entry
point stays in the program as an ordinary one, see `rejected_unchanged_iff`.
-/

namespace MirAudit

/-- What a registration does, and what it leaves. -/
def Registration.attempt (p : Program) : Registration → Except RegistrationFault Unit × Program
  | .fn decl entry => p.addFn decl entry
  | .struct decl => (.ok (), p.addStruct decl)
  | .trait decl => (.ok (), p.addTrait decl)
  | .impl decl => p.addImpl decl

/-- The fault is that the function cannot be the entry point. -/
def RegistrationFault.AboutEntry : RegistrationFault → Prop
  | .duplicateEntry _ | .foreignEntry _ => True
  | .duplicateFn _ | .externBody _ | .conflictingImpl _ _ => False

namespace Program

/-- Every query has the same answer in both programs. -/
structure AnswersAlike (p q : Program) : Prop where
  fnDecl : q.fnDecl = p.fnDecl
  structDecl : q.structDecl = p.structDecl
  findImpl : q.findImpl = p.findImpl
  localItems : q.localItems = p.localItems
  entry : q.entry = p.entry
  localCrate : q.localCrate = p.localCrate
  externals : q.externals = p.externals
  findCrate : q.findCrate = p.findCrate
  traits : q.traits.values = p.traits.values
  traitDecl : require q.traits = require p.traits
  impls : q.impls.values = p.impls.values
  traitImpl : require q.impls = require p.impls
  bodyOfItem : q.bodyOfItem = p.bodyOfItem
  bodyOf : q.bodyOf = p.bodyOf
  instanceOf : ∀ item, (q.instanceOf item).1 = (p.instanceOf item).1
  resolve : ∀ fn args, (q.resolve fn args).1 = (p.resolve fn args).1

theorem AnswersAlike.refl (p : Program) : p.AnswersAlike p := by
  constructor <;> intros <;> rfl

variable {p q : Program} {fn : FnDecl} {entry : Bool} {fault : RegistrationFault}

/-- How registering a function fails: before anything has happened, or as entry point when all has
happened that an ordinary function would need. -/
theorem add_fn_eq_error (h : p.addFn fn entry = (.error fault, q)) :
    ¬ fault.AboutEntry ∧ q = p ∨
      fault.AboutEntry ∧ entry = true ∧ p.addFn fn false = (.ok (), q) := by
  unfold addFn at h ⊢
  by_cases hknown : p.fns.contains fn.defId = true
  · rw [if_pos hknown] at h
    cases h
    exact Or.inl ⟨id, rfl⟩
  rw [if_neg hknown] at h ⊢
  by_cases hforeign : (fn.isExtern && fn.body.isSome) = true
  · rw [if_pos hforeign] at h
    cases h
    exact Or.inl ⟨id, rfl⟩
  rw [if_neg hforeign] at h ⊢
  refine Or.inr ?_
  cases entry with
  | false =>
      -- an ordinary function is not rejected any more
      by_cases hitem : p.isItem fn = true
      · rw [if_pos hitem] at h
        cases h
      · rw [if_neg hitem] at h
        cases h
  | true =>
      by_cases hitem : p.isItem fn = true
      · rw [if_pos hitem] at h ⊢
        by_cases hentry : p.entry.isSome = true
        · simp only [hentry, Bool.not_true, Bool.false_eq_true, if_false, if_true] at h
          cases h
          exact ⟨trivial, rfl, rfl⟩
        · simp only [hentry, Bool.not_true, Bool.false_eq_true, if_false] at h
          cases h
      · rw [if_neg hitem] at h ⊢
        cases h
        exact ⟨trivial, rfl, rfl⟩

theorem add_impl_eq_error {decl : TraitImpl} (h : p.addImpl decl = (.error fault, q)) :
    ¬ fault.AboutEntry ∧ q = p := by
  unfold addImpl at h
  split at h <;> cases h
  exact ⟨id, rfl⟩

/-- A function that was not known is found once it is registered. -/
theorem not_answers_alike_of_add_fn (h : p.addFn fn entry = (.ok (), q)) : ¬ p.AnswersAlike q := by
  intro hsame
  obtain ⟨hnew, -, -, rfl⟩ := add_fn_eq_ok.mp h
  have hfound : (p.entering fn entry).fnDecl fn.defId = some fn := by
    rw [fn_decl_entering, if_pos rfl]
  rw [hsame.fnDecl, hnew] at hfound
  cases hfound

end Program

/-- A registration that is rejected changes no answer exactly if the fault is not about the entry
point, and then it leaves the program as it is. A function that is rejected as entry point is
registered all the same, in the way of a function that is not to be the entry point. -/
theorem rejected_unchanged_iff {p q : Program} {r : Registration} {fault : RegistrationFault}
    (h : r.attempt p = (.error fault, q)) :
    (p.AnswersAlike q ↔ ¬ fault.AboutEntry) ∧ (¬ fault.AboutEntry → q = p) ∧
      (fault.AboutEntry → ∃ fn, r = .fn fn true ∧ p.addFn fn false = (.ok (), q)) := by
  have hcases : ¬ fault.AboutEntry ∧ q = p ∨
      fault.AboutEntry ∧ ∃ fn, r = .fn fn true ∧ p.addFn fn false = (.ok (), q) := by
    cases r with
    | fn decl entry =>
        rcases Program.add_fn_eq_error h with hearly | ⟨hlate, rfl, hadd⟩
        · exact Or.inl hearly
        · exact Or.inr ⟨hlate, decl, rfl, hadd⟩
    | struct decl | trait decl => cases h
    | impl decl => exact Or.inl (Program.add_impl_eq_error h)
  rcases hcases with ⟨hearly, rfl⟩ | ⟨hlate, fn, rfl, hadd⟩
  · exact ⟨iff_of_true (.refl _) hearly, fun _ => rfl, fun hlate => absurd hlate hearly⟩
  · refine ⟨iff_of_false (Program.not_answers_alike_of_add_fn hadd) (not_not_intro hlate), ?_, ?_⟩
    · exact fun hearly => absurd hlate hearly
    · exact fun _ => ⟨fn, rfl, hadd⟩

/-- A program with an entry point, and another function. -/
def withEntry : Program :=
  .build (some "main")
    [.register (.fn { defId := ⟨"main", "main"⟩, body := some (.returning .unit []) } true)]

/-- Another function that is to be the entry point. -/
def secondEntry : FnDecl :=
  { defId := ⟨"main", "again"⟩, body := some (.returning .unit []) }

/-- Registering the entry point again changes nothing. Registering another function as entry point
fails too, and the other function is there afterwards. -/
theorem rejected_unchanged_with_entry :
    let again : Registration := .fn { defId := ⟨"main", "main"⟩ } false
    let q := (withEntry.addFn secondEntry false).2
    again.attempt withEntry = (.error (.duplicateFn ⟨"main", "main"⟩), withEntry) ∧
      withEntry.AnswersAlike withEntry ∧
      (Registration.fn secondEntry true).attempt withEntry =
        (.error (.duplicateEntry secondEntry.defId), q) ∧
      ¬ withEntry.AnswersAlike q ∧ q.fnDecl secondEntry.defId = some secondEntry := by
  intro again q
  have hknown : again.attempt withEntry = (.error (.duplicateFn ⟨"main", "main"⟩), withEntry) := by
    decide
  have hsecond : (Registration.fn secondEntry true).attempt withEntry =
      (.error (.duplicateEntry secondEntry.defId), q) := by
    decide
  exact ⟨hknown, (rejected_unchanged_iff hknown).1.mpr id, hsecond,
    fun hsame => (rejected_unchanged_iff hsecond).1.mp hsame trivial, by decide⟩

/-- A second entry point is rejected, and is a function of the program from then on. -/
theorem second_entry_stays :
    let (outcome, q) := (Registration.fn secondEntry true).attempt withEntry
    outcome = .error (.duplicateEntry secondEntry.defId) ∧ ¬ withEntry.AnswersAlike q := by
  refine ⟨by decide, fun hsame => ?_⟩
  have hfound := congrFun hsame.fnDecl secondEntry.defId
  revert hfound
  decide

end MirAudit
