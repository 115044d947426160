import MirAudit.Proofs.Query

/-!
# Which bodies a search asks for

`Model.logged` is a model that also notes each instance whose body is asked for. It answers like the
model it is made from, so its log says what a search on that model asks: the body of every instance
that is entered, once and in the order of entering (`explore_logged`).
-/

namespace MirAudit

variable {σ τ α β : Type}

/-- Queries that behave alike from every state are the same. -/
theorem Query.ext {q r : Query σ α} (h : ∀ s, q.ask s = r.ask s) : q = r :=
  funext h

/-- The query on the first part of a state; the second part is left alone. -/
def Query.onFst (q : Query σ α) : Query (σ × τ) α :=
  .steps fun s => ((q.ask s.1).1, (q.ask s.1).2, s.2)

namespace Query

@[simp] theorem ask_onFst (q : Query σ α) (s : σ) (t : τ) :
    q.onFst.ask (s, t) = ((q.ask s).1, (q.ask s).2, t) :=
  rfl

theorem onFst_pure (a : α) : (pure a : Query σ α).onFst (τ := τ) = pure a :=
  rfl

theorem onFst_ofExcept (r : Except Fault α) :
    (ofExcept r : Query σ α).onFst (τ := τ) = ofExcept r :=
  rfl

theorem onFst_bind (q : Query σ α) (f : α → Query σ β) :
    (q >>= f).onFst (τ := τ) = q.onFst >>= fun a => (f a).onFst := by
  refine Query.ext fun ⟨s, t⟩ => ?_
  rw [ask_onFst, ask_bind, ask_bind, ask_onFst]
  rcases q.ask s with ⟨_ | a, next⟩
  · rfl
  · exact (ask_onFst (f a) next t).symm

theorem onFst_attempt (q : Query σ α) : q.attempt.onFst (τ := τ) = q.onFst.attempt := by
  refine Query.ext fun ⟨s, t⟩ => ?_
  rw [ask_onFst, ask_attempt, ask_attempt, ask_onFst]
  rcases q.ask s with ⟨fault | a, next⟩
  · cases fault <;> rfl
  · rfl

theorem onFst_mapM (f : α → Query σ β) (as : List α) :
    (as.mapM f).onFst (τ := τ) = as.mapM fun a => (f a).onFst := by
  induction as with
  | nil => rfl
  | cons a as ih => simp only [List.mapM_cons, onFst_bind, onFst_pure, ih]

end Query

/-! ## The logged model -/

namespace Model

/-- The model that also notes, in order, every instance whose body is asked for. -/
def logged (m : Model σ) : Model (σ × List Instance) where
  entryFn := m.entryFn.onFst
  localItems := m.localItems.onFst
  instanceOf item := (m.instanceOf item).onFst
  bodyOfItem item := (m.bodyOfItem item).onFst
  bodyOf i := do
    .steps fun (s, asked) => (.ok (), s, asked ++ [i])
    (m.bodyOf i).onFst
  resolve fn args := (m.resolve fn args).onFst
  localCrate := m.localCrate.onFst
  externalCrates := m.externalCrates.onFst
  findCrate name := (m.findCrate name).onFst
  traitDecls := m.traitDecls.onFst
  traitDecl decl := (m.traitDecl decl).onFst
  traitImpls := m.traitImpls.onFst
  traitImpl decl := (m.traitImpl decl).onFst

variable {m : Model σ}

theorem logged_target (locals : List LocalDecl) (func : Operand) :
    m.logged.target locals func = (m.target locals func).onFst := by
  simp only [target, Query.onFst_bind, Query.onFst_ofExcept]
  congr 1
  funext callee
  cases callee with
  | direct fn args =>
      simp only [Query.onFst_bind, Query.onFst_pure]
      rfl
  | indirect => simp only [Query.onFst_pure]

/-- Following a call asks for no body. -/
theorem logged_follow (caller : Instance) (locals : List LocalDecl) (site : CallSite) :
    m.logged.follow caller locals site = (m.follow caller locals site).onFst := by
  simp only [follow, logged_target, Query.onFst_bind, Query.onFst_attempt]
  congr 1
  funext result
  cases result <;> rfl

theorem ask_logged_bodyOf (i : Instance) (s : σ) (asked : List Instance) :
    (m.logged.bodyOf i).ask (s, asked) =
      (((m.bodyOf i).ask s).1, ((m.bodyOf i).ask s).2, asked ++ [i]) :=
  rfl

/-- Finding the calls of an instance asks for its body once. -/
theorem ask_logged_callSites (i : Instance) (s : σ) (asked : List Instance) :
    (m.logged.callSites i).ask (s, asked) =
      (((m.callSites i).ask s).1, ((m.callSites i).ask s).2, asked ++ [i]) := by
  rw [← Query.ask_onFst (m.callSites i) s (asked ++ [i])]
  simp only [callSites, Query.onFst_bind]
  rw [Query.ask_bind, Query.ask_bind, ask_logged_bodyOf, Query.ask_onFst]
  rcases (m.bodyOf i).ask s with ⟨_ | _ | body, next⟩
  · rfl
  · rfl
  · dsimp only
    cases body.calls <;> rfl

/-- Finding the edges of an instance asks for its body once, and for no other. -/
theorem ask_logged_edges (i : Instance) (s : σ) (asked : List Instance) :
    (m.logged.edges i).ask (s, asked) =
      (((m.edges i).ask s).1, ((m.edges i).ask s).2, asked ++ [i]) := by
  rw [← Query.ask_onFst (m.edges i) s (asked ++ [i])]
  simp only [edges, Query.onFst_bind, Query.onFst_attempt]
  rw [Query.ask_bind, Query.ask_bind, Query.ask_attempt, Query.ask_attempt,
    ask_logged_callSites, Query.ask_onFst]
  rcases (m.callSites i).ask s with ⟨fault | ⟨locals, sites⟩, next⟩
  · cases fault <;> rfl
  · show (sites.mapM (m.logged.follow i locals)).ask _ = _
    rw [funext (logged_follow i locals), ← Query.onFst_mapM]

/-- A step of a search asks for the body of the instance that it enters, if it enters one. -/
theorem ask_logged_step {d following : Discovery} {s next : σ}
    (h : (m.step d).ask s = (.ok following, next)) (asked : List Instance) :
    ∃ entered, following.instances = d.instances ++ entered ∧
      (m.logged.step d).ask (s, asked) = (.ok following, next, asked ++ entered) := by
  unfold step at h ⊢
  rcases hpending : d.pending with _ | ⟨i, rest⟩ <;> simp only [hpending] at h ⊢
  · cases h
    exact ⟨[], by simp, by simp⟩
  · by_cases hi : d.contains i = true
    · rw [if_pos hi] at h ⊢
      cases h
      exact ⟨[], by simp, by simp⟩
    · rw [if_neg hi] at h
      obtain ⟨es, middle, hedges, h⟩ := Query.ask_bind_eq_ok.mp h
      cases h
      rw [if_neg hi, Query.ask_bind, ask_logged_edges, hedges]
      exact ⟨[i], rfl, rfl⟩

/-- A search asks for the bodies of the instances that it enters, in the order of entering. -/
theorem explore_logged {fuel : Nat} {d last : Discovery} {s next : σ}
    (h : (m.explore fuel d).outcome s = (.ok last, next)) (asked : List Instance) :
    ∃ entered, last.instances = d.instances ++ entered ∧
      (m.logged.explore fuel d).outcome (s, asked) = (.ok last, next, asked ++ entered) := by
  -- the log varies in the induction, since every step appends to it
  refine explore_induction (motive := fun fuel d s => ∀ asked, ∃ entered,
    last.instances = d.instances ++ entered ∧
      (m.logged.explore fuel d).outcome (s, asked) = (.ok last, next, asked ++ entered))
    ?done ?step h asked
  case done =>
    intro fuel hempty asked
    refine ⟨[], (List.append_nil _).symm, ?_⟩
    rw [List.append_nil]
    exact explore_of_done hempty
  case step =>
    intro fuel d s following middle hpending hstep ih asked
    obtain ⟨first, hfirst, hlogged⟩ := ask_logged_step hstep asked
    obtain ⟨rest, hrest, hexplore⟩ := ih (asked ++ first)
    refine ⟨first ++ rest, by rw [hrest, hfirst, List.append_assoc], ?_⟩
    rw [explore_of_step hpending hlogged, ← List.append_assoc]
    exact hexplore

end Model

end MirAudit
