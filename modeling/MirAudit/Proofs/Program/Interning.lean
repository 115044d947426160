import Mathlib.Logic.Relation
import MirAudit.Proofs.Discovery.Edges
import MirAudit.Proofs.Program.Resolution

/-!
# The intern table does not show

A program resolves through its intern table, and each success adds to the table. `InternedFrom`
says that a program is another one with some instances interned. From every such state the queries
answer what `Program.oracle` says, which resolves without a table: `answers_from_oracle`.
-/

namespace MirAudit

/-- Every entry of the table is what the lookups resolve to. -/
def InternTable.SoundFor (t : InternTable) (env : Environment) : Prop :=
  ∀ id args entry, t.get? id args = some entry → env.resolve id args = .ok entry.inst

namespace InternTable

variable {t : InternTable} {env : Environment} {id : DefId} {args : List Ty} {i : Instance}

theorem sound_for_empty (env : Environment) : ({} : InternTable).SoundFor env := by
  intro id args entry h
  cases h

/-- An entry may be put where resolution gives its instance. -/
theorem SoundFor.insert {entry : Interned} {next : Nat} (h : t.SoundFor env)
    (hresolve : env.resolve id args = .ok entry.inst) :
    (InternTable.mk (t.entries.insert (id, args) entry) next).SoundFor env := by
  intro other others found hfound
  unfold InternTable.get? at hfound
  rw [Table.get?_insert] at hfound
  split at hfound
  next heq =>
    cases heq
    cases hfound
    exact hresolve
  next => exact h _ _ _ hfound

/-- Interning what was resolved gives it back and keeps the table sound. -/
theorem SoundFor.intern (h : t.SoundFor env) (henv : env.Idempotent)
    (hresolve : env.resolve id args = .ok i) :
    (t.intern id args i).1.inst = i ∧ (t.intern id args i).2.SoundFor env := by
  have hself : env.resolve i.defId i.args = .ok i := henv hresolve
  unfold InternTable.intern
  cases hknown : t.get? i.defId i.args with
  | some known =>
      have hinst : known.inst = i := by
        have hsound := h _ _ _ hknown
        rw [hself] at hsound
        exact (Except.ok.inj hsound).symm
      refine ⟨hinst, h.insert ?_⟩
      rw [hresolve, hinst]
  | none =>
      let fresh : Interned := ⟨i, t.nextTicket⟩
      have hown : env.resolve i.defId i.args = .ok fresh.inst := hself
      have hasked : env.resolve id args = .ok fresh.inst := hresolve
      have hfirst : (InternTable.mk (t.entries.insert (i.defId, i.args) fresh)
          (t.nextTicket + 1)).SoundFor env := h.insert hown
      exact ⟨rfl, hfirst.insert hasked⟩

end InternTable

namespace Program

/-- The answers of a program that resolves without a table. -/
def oracle (p : Program) : Oracle where
  bodyOf := p.bodyOf
  resolve id args := (p.environment.resolve id args).mapError ResolutionFault.toFault

theorem oracle_resolve_eq_ok {p : Program} {id : DefId} {args : List Ty} {i : Instance} :
    p.oracle.resolve id args = .ok i ↔ p.environment.resolve id args = .ok i := by
  show (p.environment.resolve id args).mapError ResolutionFault.toFault = Except.ok i ↔ _
  cases p.environment.resolve id args with
  | ok j => simp [Except.mapError]
  | error fault => simp [Except.mapError]

theorem oracle_resolve_eq_error {p : Program} {id : DefId} {args : List Ty} {fault : Fault} :
    p.oracle.resolve id args = .error fault ↔
      ∃ cause, p.environment.resolve id args = .error cause ∧ cause.toFault = fault := by
  show (p.environment.resolve id args).mapError ResolutionFault.toFault = Except.error fault ↔ _
  cases p.environment.resolve id args with
  | ok j => simp [Except.mapError]
  | error cause => simp [Except.mapError]

theorem oracle_never_fatal (p : Program) : p.oracle.NeverFatal where
  bodyOf i message := by
    show p.bodyOf i ≠ _
    unfold bodyOf
    repeat' split
    all_goals nofun
  resolve id args message := by
    intro h
    obtain ⟨cause, -, hcause⟩ := oracle_resolve_eq_error.mp h
    exact cause.to_fault_ne_setup message hcause

/-- `q` is `p` with some instances interned. -/
structure InternedFrom (p q : Program) : Prop where
  same : q = { p with interned := q.interned }
  sound : q.interned.SoundFor p.environment

namespace InternedFrom

variable {p q : Program}

theorem start (h : p.interned = {}) : p.InternedFrom p where
  same := rfl
  sound := by
    rw [h]
    exact InternTable.sound_for_empty _

/-- Resolution gives what the lookups say, and interns it. -/
theorem resolve (hq : p.InternedFrom q) (henv : p.environment.Idempotent) (id : DefId)
    (args : List Ty) :
    (q.resolve id args).1 = p.oracle.resolve id args ∧ p.InternedFrom (q.resolve id args).2 := by
  have hlookups : q.environment = p.environment := by
    rw [hq.same]
    rfl
  show _ = (p.environment.resolve id args).mapError ResolutionFault.toFault ∧ _
  unfold Program.resolve Program.intern
  -- what is known was interned by an earlier resolution of the same lookups
  cases hknown : q.interned.get? id args with
  | some known =>
      dsimp only
      rw [hq.sound _ _ _ hknown]
      exact ⟨rfl, hq⟩
  | none =>
      dsimp only
      rw [hlookups]
      cases hresolve : p.environment.resolve id args with
      | error fault => exact ⟨rfl, hq⟩
      | ok i =>
          obtain ⟨hinst, hsound⟩ := hq.sound.intern henv hresolve
          refine ⟨congrArg Except.ok hinst, ?_, hsound⟩
          show { q with interned := (q.interned.intern id args i).2 } = _
          rw [hq.same]

end InternedFrom

/-- `p` becomes `q` by resolving some functions, whether that succeeds or fails. -/
def Resolving : Program → Program → Prop :=
  Relation.ReflTransGen fun p q => ∃ id args, (p.resolve id args).2 = q

/-- Resolving interns instances, and changes nothing else. -/
theorem InternedFrom.of_idempotent {p q : Program} (h : p.Resolving q) (hempty : p.interned = {})
    (henv : p.environment.Idempotent) : p.InternedFrom q := by
  induction h with
  | refl => exact .start hempty
  | tail _ hstep ih =>
      obtain ⟨id, args, rfl⟩ := hstep
      exact (ih.resolve henv id args).2

theorem InternedFrom.of_resolving {p q : Program} (h : p.Resolving q) (hempty : p.interned = {})
    (henv : p.environment.Coherent) : p.InternedFrom q :=
  .of_idempotent h hempty henv.idempotent

/-- The model of a program answers from its oracle, whatever was interned before. -/
theorem answers_from_oracle {p : Program} (henv : p.environment.Coherent) :
    Program.model.AnswersFrom p.oracle p.InternedFrom where
  bodyOf i := by
    refine .reads fun q hq => ?_
    rw [hq.same]
    rfl
  resolve id args := fun _ hq => hq.resolve henv.idempotent id args

/-! ## Instances of items -/

/-- The instance of an item, from the answers of the oracle. -/
def itemInstance (p : Program) (item : Item) : Except Fault (Option Instance) :=
  if item.kind ≠ .fn then .ok none
  else
    match p.fnDecl item.defId with
    | none => .ok none
    | some fn =>
      if fn.isGeneric then .ok none else (p.oracle.resolve item.defId []).map some

theorem instance_of_answers {p : Program} (henv : p.environment.Coherent) (item : Item) :
    (Program.model.instanceOf item).Answers p.InternedFrom (p.itemInstance item) := by
  intro q hq
  show (q.instanceOf item).1 = _ ∧ p.InternedFrom (q.instanceOf item).2
  have hfns : q.fnDecl item.defId = p.fnDecl item.defId := by
    rw [hq.same]
    rfl
  unfold Program.instanceOf itemInstance
  rw [hfns]
  by_cases hkind : item.kind ≠ .fn
  · rw [if_pos hkind, if_pos hkind]
    exact ⟨rfl, hq⟩
  · rw [if_neg hkind, if_neg hkind]
    cases p.fnDecl item.defId with
    | none => exact ⟨rfl, hq⟩
    | some fn =>
        dsimp only
        by_cases hgeneric : fn.isGeneric = true
        · rw [if_pos hgeneric, if_pos hgeneric]
          exact ⟨rfl, hq⟩
        · rw [if_neg hgeneric, if_neg hgeneric]
          obtain ⟨houtcome, hnext⟩ := hq.resolve henv.idempotent item.defId []
          rcases hresolve : q.resolve item.defId [] with ⟨outcome, next⟩
          rw [hresolve] at houtcome hnext
          rw [← houtcome]
          cases outcome with
          | ok i => exact ⟨rfl, hnext⟩
          | error fault => exact ⟨rfl, hnext⟩

end Program

end MirAudit
