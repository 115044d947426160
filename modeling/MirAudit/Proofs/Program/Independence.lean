import MirAudit.Proofs.Program.Histories
import MirAudit.Proofs.Program.Interning

/-!
# Resolution and what was resolved before

An instance is interned under its own definition and arguments too, although nobody resolved these.
So what was resolved before can show: it does not exactly if resolving a resolved instance always
gives the instance, see `resolves_alike_iff`. An impl that names the method of another trait breaks
this.
-/

namespace MirAudit

namespace Program

variable {p : Program}

/-- Whatever was resolved before, resolution answers as if nothing had been. -/
def ResolvesAlike (p : Program) : Prop :=
  ∀ q, p.Resolving q → ∀ id args, (q.resolve id args).1 = (p.resolve id args).1

/-- What is neither known as asked for nor as found becomes a new entry under both. -/
theorem intern_new {id : DefId} {args : List Ty} {i : Instance}
    (hasked : p.interned.get? id args = none) (hfound : p.interned.get? i.defId i.args = none)
    (h : p.environment.resolve id args = .ok i) : ∃ entry : Interned, entry.inst = i ∧
      (p.intern id args).1 = .ok entry ∧
      (p.intern id args).2.interned.get? i.defId i.args = some entry := by
  unfold intern
  rw [hasked]
  dsimp only
  rw [h]
  dsimp only
  unfold InternTable.intern
  rw [hfound]
  refine ⟨⟨i, p.interned.nextTicket⟩, rfl, rfl, ?_⟩
  unfold InternTable.get?
  rw [Table.get?_insert, Table.get?_insert, if_pos rfl, ite_self]

variable (hempty : p.interned = {})
include hempty

theorem unknown_of_empty (id : DefId) (args : List Ty) : p.interned.get? id args = none := by
  rw [hempty]
  rfl

/-- Where nothing is interned, resolution gives what the lookups say. -/
theorem resolve_empty_eq_ok {id : DefId} {args : List Ty} {i : Instance} :
    (p.resolve id args).1 = .ok i ↔ p.environment.resolve id args = .ok i := by
  have hunknown := unknown_of_empty hempty
  rw [resolve_fst_eq_ok]
  constructor
  · rintro ⟨entry, hentry, rfl⟩
    cases hresolve : p.environment.resolve id args with
    | ok j =>
        obtain ⟨other, rfl, hother, -⟩ := intern_new (hunknown _ _) (hunknown _ _) hresolve
        rw [hother] at hentry
        cases hentry
        rfl
    | error fault =>
        unfold intern at hentry
        rw [hunknown, hresolve] at hentry
        cases hentry
  · intro h
    obtain ⟨entry, hinst, hentry, -⟩ := intern_new (hunknown _ _) (hunknown _ _) h
    exact ⟨entry, hentry, hinst⟩

/-- A program whose table is empty goes on to answer alike exactly if resolution is idempotent. -/
theorem resolves_alike_iff_of_empty : p.ResolvesAlike ↔ p.environment.Idempotent := by
  constructor
  · intro h id args i hresolve
    have hunknown := unknown_of_empty hempty
    -- once `i` is resolved it is known under its own definition and arguments
    obtain ⟨entry, hinst, -, hown⟩ := intern_new (hunknown _ _) (hunknown _ _) hresolve
    have hanswer : ((p.resolve id args).2.resolve i.defId i.args).1 = .ok i := by
      refine resolve_fst_eq_ok.mpr ⟨entry, ?_, hinst⟩
      rw [resolve_snd]
      generalize (p.intern id args).2 = q at hown
      unfold intern
      rw [hown]
    rw [h _ (.single ⟨id, args, rfl⟩)] at hanswer
    exact (resolve_empty_eq_ok hempty).mp hanswer
  · intro henv q hq id args
    have hinterned := InternedFrom.of_idempotent hq hempty henv
    rw [(hinterned.resolve henv id args).1, ((InternedFrom.start hempty).resolve henv id args).1]

omit hempty

theorem interned_build (crateName? : Option String) (changes : List Change) :
    (build crateName? changes).interned = {} := by
  suffices h : ∀ p : Program, (changes.foldl Change.apply p).interned = p.interned from h _
  induction changes with
  | nil => exact fun _ => rfl
  | cons c changes ih => exact fun p => (ih (c.apply p)).trans (p.interned_apply c)

end Program

/-- What was resolved before does not show on a program that was built by changes exactly if
resolving a resolved instance always gives the instance. -/
theorem resolves_alike_iff (crateName? : Option String) (changes : List Change) :
    (Program.build crateName? changes).ResolvesAlike ↔
      (Program.build crateName? changes).environment.Idempotent :=
  Program.resolves_alike_iff_of_empty (Program.interned_build crateName? changes)

/-- When the method of `Show` has been resolved, `Log` leads to the impl of `Show`, and before that
to the method itself. -/
theorem not_resolves_alike_crossing :
    ¬ (Program.build (some "main") crossing).ResolvesAlike := by
  intro h
  have hlog := h ((Program.build (some "main") crossing).resolve ⟨"main", "Show::show"⟩
    [.scalar "i32"]).2 (.single ⟨_, _, rfl⟩) ⟨"main", "Log::log"⟩ [.scalar "bool", .scalar "i32"]
  revert hlog
  decide +kernel

end MirAudit
