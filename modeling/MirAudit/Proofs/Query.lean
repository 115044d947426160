import MirAudit.Discovery

/-!
# Running queries and what they answer

`Query.ask` runs a query from a state. `Query.Answers inv q r` says that `q` answers `r` from every
state that satisfies `inv` and leads back to such a state, so that the state does not show. Read
`Answers.bind` first: what a query answers is found from what its parts answer. What holds along a
search that ends is shown by `Model.explore_induction`.
-/

namespace MirAudit

variable {σ α β : Type}

/-- The outcome of a query from a state, and the state it leaves. -/
def Query.ask (q : Query σ α) (s : σ) : Except Fault α × σ :=
  q.run.run s

/-- The outcome of a run from a state, and the state it leaves. -/
def Run.outcome (r : Run σ α) (s : σ) : Except Halt α × σ :=
  r.run.run s

namespace Query

@[simp] theorem ask_pure (a : α) (s : σ) : (pure a : Query σ α).ask s = (.ok a, s) :=
  rfl

/-- A query goes on from where the query before it stopped, unless that one failed. -/
theorem ask_bind (q : Query σ α) (f : α → Query σ β) (s : σ) :
    (q >>= f).ask s =
      match q.ask s with
      | (.ok a, next) => (f a).ask next
      | (.error fault, next) => (.error fault, next) := by
  unfold ask
  simp only [bind, ExceptT.bind, ExceptT.bindCont, ExceptT.mk, ExceptT.run, StateT.bind,
    StateT.run]
  rcases q s with ⟨_ | _, _⟩ <;> rfl

/-- A query in two parts succeeds exactly if they do, one after the other. -/
theorem ask_bind_eq_ok {q : Query σ α} {f : α → Query σ β} {s next : σ} {b : β} :
    (q >>= f).ask s = (.ok b, next) ↔
      ∃ a middle, q.ask s = (.ok a, middle) ∧ (f a).ask middle = (.ok b, next) := by
  rw [ask_bind]
  rcases q.ask s with ⟨fault | a, middle⟩
  · simp
  · constructor
    · exact fun h => ⟨a, middle, rfl, h⟩
    · intro h
      obtain ⟨_, _, ⟨⟩, h⟩ := h
      exact h

/-- An attempt never fails with anything but a setup fault. -/
theorem ask_attempt (q : Query σ α) (s : σ) :
    q.attempt.ask s =
      match q.ask s with
      | (.ok a, next) => (.ok (.ok a), next)
      | (.error fault, next) =>
        match fault.contain with
        | .ok finding => (.ok (.error finding), next)
        | .error message => (.error (.setup message), next) := by
  unfold ask Query.attempt
  simp only [bind, StateT.bind, ExceptT.mk, ExceptT.run, StateT.run]
  rcases q s with ⟨fault | _, _⟩
  · dsimp only
    cases fault.contain <;> rfl
  · rfl

/-- A query inside a run stops the run where it fails. -/
theorem outcome_inRun (q : Query σ α) (s : σ) :
    q.inRun.outcome s =
      match q.ask s with
      | (.ok a, next) => (.ok a, next)
      | (.error fault, next) => (.error (.fault fault), next) := by
  unfold Run.outcome ask Query.inRun
  simp only [bind, StateT.bind, ExceptT.mk, ExceptT.run, StateT.run]
  rcases q s with ⟨_ | _, _⟩ <;> rfl

end Query

/-- A run goes on from where the run before it stopped, unless that one halted. -/
theorem Run.outcome_bind (r : Run σ α) (f : α → Run σ β) (s : σ) :
    Run.outcome (r >>= f) s =
      match r.outcome s with
      | (.ok a, next) => (f a).outcome next
      | (.error halt, next) => (.error halt, next) := by
  unfold Run.outcome
  simp only [bind, ExceptT.bind, ExceptT.bindCont, ExceptT.mk, ExceptT.run, StateT.bind,
    StateT.run]
  rcases r s with ⟨_ | _, _⟩ <;> rfl

/-! ## Fixed answers -/

/-- From every state that satisfies `inv`, the query answers `r` and leaves such a state. -/
def Query.Answers (inv : σ → Prop) (q : Query σ α) (r : Except Fault α) : Prop :=
  ∀ s, inv s → (q.ask s).1 = r ∧ inv (q.ask s).2

namespace Query.Answers

variable {inv : σ → Prop}

theorem ask_eq {q : Query σ α} {r : Except Fault α} (hq : q.Answers inv r) {s : σ} (hs : inv s) :
    ∃ next, q.ask s = (r, next) ∧ inv next := by
  obtain ⟨houtcome, hnext⟩ := hq s hs
  exact ⟨_, Prod.ext houtcome rfl, hnext⟩

/-- A query without a state gives the outcome it was made from. -/
theorem of_except (r : Except Fault α) : (Query.ofExcept r : Query σ α).Answers inv r :=
  fun _ hs => ⟨rfl, hs⟩

theorem pure (a : α) : (Pure.pure a : Query σ α).Answers inv (.ok a) :=
  fun _ hs => ⟨rfl, hs⟩

theorem throw (fault : Fault) : (throw fault : Query σ α).Answers inv (.error fault) :=
  fun _ hs => ⟨rfl, hs⟩

/-- A query that only reads gives what it reads, if that is the same from all the states. -/
theorem reads {f : σ → Except Fault α} {r : Except Fault α} (h : ∀ s, inv s → f s = r) :
    (Query.reads f).Answers inv r :=
  fun s hs => ⟨h s hs, hs⟩

/-- What follows an answer is asked with that answer. -/
theorem bind {q : Query σ α} {f : α → Query σ β} {a : α} {r : Except Fault β}
    (hq : q.Answers inv (.ok a)) (hf : (f a).Answers inv r) : (q >>= f).Answers inv r := by
  intro s hs
  obtain ⟨next, hask, hnext⟩ := hq.ask_eq hs
  rw [ask_bind, hask]
  exact hf next hnext

/-- Nothing follows a failure. -/
theorem bind_error {q : Query σ α} {f : α → Query σ β} {fault : Fault}
    (hq : q.Answers inv (.error fault)) : (q >>= f).Answers inv (.error fault) := by
  intro s hs
  obtain ⟨next, hask, hnext⟩ := hq.ask_eq hs
  rw [ask_bind, hask]
  exact ⟨rfl, hnext⟩

/-- An attempt at an answer gives the answer. -/
theorem attempt {q : Query σ α} {a : α} (hq : q.Answers inv (.ok a)) :
    q.attempt.Answers inv (.ok (.ok a)) := by
  intro s hs
  obtain ⟨next, hask, hnext⟩ := hq.ask_eq hs
  rw [ask_attempt, hask]
  exact ⟨rfl, hnext⟩

/-- An attempt at a failure that can be contained gives the finding about it. -/
theorem attempt_error {q : Query σ α} {fault : Fault} {finding : CheckFault}
    (hq : q.Answers inv (.error fault)) (hfinding : fault.contain = .ok finding) :
    q.attempt.Answers inv (.ok (.error finding)) := by
  intro s hs
  obtain ⟨next, hask, hnext⟩ := hq.ask_eq hs
  rw [ask_attempt, hask]
  simp only [hfinding]
  exact ⟨trivial, hnext⟩

/-- Queries asked one after another give their answers in order. -/
theorem map_m {f : α → Query σ β} {g : α → β} {as : List α}
    (h : ∀ a ∈ as, (f a).Answers inv (.ok (g a))) : (as.mapM f).Answers inv (.ok (as.map g)) := by
  induction as with
  | nil => simpa using pure []
  | cons a as ih =>
      rw [List.mapM_cons]
      refine bind (h a List.mem_cons_self) (bind (ih fun b hb => h b ?_) (pure _))
      exact List.mem_cons_of_mem a hb

/-- Checks asked one after another all succeed if each of them does. -/
theorem for_m {f : α → Query σ PUnit} {as : List α}
    (h : ∀ a ∈ as, (f a).Answers inv (.ok ⟨⟩)) : (as.forM f).Answers inv (.ok ⟨⟩) := by
  induction as with
  | nil => exact pure PUnit.unit
  | cons a as ih =>
      show (f a >>= fun _ => as.forM f).Answers inv (.ok ⟨⟩)
      exact bind (h a List.mem_cons_self) (ih fun b hb => h b (List.mem_cons_of_mem a hb))

end Query.Answers

/-! ## Searches -/

namespace Model

variable {m : Model σ} {fuel : Nat} {d : Discovery} {s : σ}

/-- A search is at its end where nothing is pending. -/
theorem explore_of_done (hempty : d.pending.isEmpty = true) :
    (m.explore fuel d).outcome s = (.ok d, s) := by
  unfold explore
  rw [if_pos hempty]
  rfl

/-- Otherwise it goes on from where a step leads. -/
theorem explore_of_step {following : Discovery} {middle : σ} (hpending : d.pending.isEmpty ≠ true)
    (hstep : (m.step d).ask s = (.ok following, middle)) :
    (m.explore (fuel + 1) d).outcome s = (m.explore fuel following).outcome middle := by
  have hgoes : m.explore (fuel + 1) d = (m.step d).inRun >>= m.explore fuel := by
    rw [explore]
    exact if_neg hpending
  rw [hgoes, Run.outcome_bind, Query.outcome_inRun, hstep]

/-- Induction along a search that ends: from its last point back to its first, one step at a
time. -/
theorem explore_induction {last : Discovery} {next : σ} {motive : Nat → Discovery → σ → Prop}
    (hdone : ∀ fuel, last.pending.isEmpty = true → motive fuel last next)
    (hstep : ∀ fuel d s following middle, d.pending.isEmpty ≠ true →
      (m.step d).ask s = (.ok following, middle) → motive fuel following middle →
      motive (fuel + 1) d s)
    (h : (m.explore fuel d).outcome s = (.ok last, next)) : motive fuel d s := by
  induction fuel generalizing d s with
  | zero =>
      unfold explore at h
      split at h
      next hempty =>
        cases h
        exact hdone 0 hempty
      next => cases h
  | succ fuel ih =>
      unfold explore at h
      split at h
      next hempty =>
        cases h
        exact hdone (fuel + 1) hempty
      next hpending =>
        rw [Run.outcome_bind, Query.outcome_inRun] at h
        rcases hask : (m.step d).ask s with ⟨fault | following, middle⟩ <;> rw [hask] at h
        · cases h
        · exact hstep fuel d s following middle hpending hask (ih h)

end Model

end MirAudit
