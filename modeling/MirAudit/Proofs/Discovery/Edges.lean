import MirAudit.Proofs.Body.Walk
import MirAudit.Proofs.Query

/-!
# The edges of an instance

An oracle fixes the answers to the two queries of a search. A model that answers from an oracle
gives every instance the same edges each time, one for each call of its body in block order.
`Oracle.Calls` says which instances an instance calls without mentioning a walk, and
`mem_callees_iff` finds exactly these among the edges.
-/

namespace MirAudit

/-- Fixed answers to the queries of a search. -/
structure Oracle where
  bodyOf : Instance → Except Fault (Option Body)
  resolve : DefId → List Ty → Except Fault Instance

/-- No answer is a setup fault. -/
structure Oracle.NeverFatal (o : Oracle) : Prop where
  bodyOf : ∀ i message, o.bodyOf i ≠ .error (.setup message)
  resolve : ∀ fn args message, o.resolve fn args ≠ .error (.setup message)

/-- The model answers from the oracle as long as its state satisfies `inv`, and keeps to such
states. -/
structure Model.AnswersFrom {σ : Type} (m : Model σ) (o : Oracle) (inv : σ → Prop) : Prop where
  bodyOf : ∀ i, (m.bodyOf i).Answers inv (o.bodyOf i)
  resolve : ∀ fn args, (m.resolve fn args).Answers inv (o.resolve fn args)

/-- The finding that a fault becomes. A setup fault is never contained; it is read as a panic. -/
def Fault.finding : Fault → CheckFault
  | .check fault => fault
  | .crash c => { kind := .panic, message := c.message }
  | .setup message => { kind := .panic, message }

/-- Every fault but a setup fault is contained as its finding. -/
theorem Fault.contain_eq {fault : Fault} (h : ∀ message, fault ≠ .setup message) :
    fault.contain = .ok fault.finding := by
  cases fault with
  | check fault => rfl
  | crash c => rfl
  | setup message => exact absurd rfl (h message)

/-- What a fault is contained as is its finding. -/
theorem Fault.finding_of_contain {fault : Fault} {finding : CheckFault}
    (h : fault.contain = .ok finding) : fault.finding = finding := by
  cases fault <;> cases h <;> rfl

namespace Oracle

variable (o : Oracle)

/-- What a call of an operand leads to. -/
def target (locals : List LocalDecl) (func : Operand) : Except Fault Edge :=
  match func.callee locals with
  | .error fault => .error fault
  | .ok .indirect => .ok .indirect
  | .ok (.direct fn args) => (o.resolve fn args).map Edge.direct

/-- What a call of an instance contributes. -/
def follow (caller : Instance) (locals : List LocalDecl) (site : CallSite) : Edge :=
  match o.target locals site.func with
  | .ok edge => edge
  | .error fault => .broken (fault.finding.located caller.name (some site.block))

/-- The slots and calls of an instance, or why they cannot be found. -/
def callSites (i : Instance) : Except Fault (List LocalDecl × List CallSite) :=
  match o.bodyOf i with
  | .error fault => .error fault
  | .ok none => .ok ([], [])
  | .ok (some body) =>
    match body.calls with
    | .error crash => .error (.crash crash)
    | .ok sites => .ok (body.locals, sites)

/-- The edges that leave an instance: a single broken one if its body cannot be read or walked. -/
def edges (i : Instance) : List Edge :=
  match o.callSites i with
  | .error fault => [.broken (fault.finding.located i.name none)]
  | .ok (locals, sites) => sites.map (o.follow i locals)

/-- The body of `i` can be walked, and a block of it ends in a call of a function item that is
resolved to `j`. -/
def Calls (i j : Instance) : Prop :=
  ∃ body, o.bodyOf i = .ok (some body) ∧ body.walk.stuck = none ∧
    ∃ block ∈ body.blocks, ∃ func args dest target fn tys,
      block.terminator = .call func args dest target ∧
      func.ty body.locals = .ok (.fnDef fn tys) ∧ o.resolve fn tys = .ok j

end Oracle

/-- The types that make a callee direct are those of function items. -/
theorem Operand.callee_eq_direct {locals : List LocalDecl} {func : Operand} {fn : DefId}
    {args : List Ty} :
    func.callee locals = .ok (.direct fn args) ↔ func.ty locals = .ok (.fnDef fn args) := by
  unfold Operand.callee
  cases func.ty locals with
  | error crash => simp
  | ok ty => cases ty <;> simp [Callee.ofTy]

/-- A callee is never a setup fault. -/
theorem Operand.callee_ne_setup (locals : List LocalDecl) (func : Operand) (message : String) :
    func.callee locals ≠ .error (.setup message) := by
  unfold Operand.callee
  cases func.ty locals with
  | error crash => simp
  | ok ty => cases ty <;> simp [Callee.ofTy]

namespace Oracle

variable {o : Oracle}

/-- An oracle that is never fatal raises no setup fault about a target. -/
theorem target_ne_setup (ho : o.NeverFatal) (locals : List LocalDecl) (func : Operand)
    (message : String) : o.target locals func ≠ .error (.setup message) := by
  unfold target
  have hcallee := func.callee_ne_setup locals message
  split
  next fault h => simpa [h] using hcallee
  next => simp
  next fn args _ =>
    have hresolve := ho.resolve fn args message
    cases h : o.resolve fn args with
    | error fault => simpa [Except.map, h] using hresolve
    | ok j => simp [Except.map]

/-- An oracle that is never fatal raises no setup fault about call sites. -/
theorem callSites_ne_setup (ho : o.NeverFatal) (i : Instance) (message : String) :
    o.callSites i ≠ .error (.setup message) := by
  unfold callSites
  have hbodyOf := ho.bodyOf i message
  split
  next fault h => simpa [h] using hbodyOf
  next => simp
  next => split <;> simp

/-- A call leads to an instance exactly if its operand is a function item resolved to it. -/
theorem follow_eq_direct {caller j : Instance} {locals : List LocalDecl} {site : CallSite} :
    o.follow caller locals site = .direct j ↔
      ∃ fn tys, site.func.ty locals = .ok (.fnDef fn tys) ∧ o.resolve fn tys = .ok j := by
  simp only [follow, target, ← Operand.callee_eq_direct]
  rcases site.func.callee locals with fault | (⟨fn, args⟩ | _)
  · simp
  · simp only [Except.ok.injEq, Callee.direct.injEq]
    rcases h : o.resolve fn args with fault | k <;> simp only [Except.map]
    · constructor
      · simp
      · intro h
        obtain ⟨_, _, ⟨rfl, rfl⟩, hj⟩ := h
        simp [h] at hj
    · constructor
      · rintro ⟨⟩
        exact ⟨fn, args, ⟨rfl, rfl⟩, h⟩
      · intro h
        obtain ⟨_, _, ⟨rfl, rfl⟩, hj⟩ := h
        simpa [h] using hj
  · simp

/-- The callees among the edges of an instance are the instances it calls. -/
theorem mem_callees_iff {i j : Instance} :
    j ∈ (o.edges i).filterMap Edge.callee? ↔ o.Calls i j := by
  have hcallee : ∀ edge : Edge, edge.callee? = some j ↔ edge = .direct j := by
    intro edge
    cases edge <;> simp [Edge.callee?]
  simp only [List.mem_filterMap, hcallee, exists_eq_right]
  unfold edges callSites Calls
  rcases o.bodyOf i with fault | (_ | body)
  · simp
  · simp
  · -- a walk that is stopped gives no callee, whatever the body calls
    rcases hwalk : body.walk.stuck with _ | node
    · simp only [Body.calls_eq hwalk, List.mem_map, follow_eq_direct, Except.ok.injEq,
        Option.some.injEq, exists_eq_left', hwalk, true_and]
      constructor
      · intro h
        obtain ⟨site, hsite, fn, tys, hty, hresolve⟩ := h
        obtain ⟨block, hblock, args, dest, target, hcall⟩ := Body.mem_callSites.mp hsite
        exact ⟨block, List.mem_of_getElem? hblock, site.func, args, dest, target, fn, tys,
          hcall, hty, hresolve⟩
      · intro h
        obtain ⟨block, hblock, func, args, dest, target, fn, tys, hcall, hty, hresolve⟩ := h
        obtain ⟨index, hindex⟩ := List.mem_iff_getElem?.mp hblock
        exact ⟨⟨index, func⟩,
          Body.mem_callSites.mpr ⟨block, hindex, args, dest, target, hcall⟩,
          fn, tys, hty, hresolve⟩
    · simp [Body.calls_stuck hwalk, hwalk]

end Oracle

/-! ## Models that answer from an oracle -/

namespace Model.AnswersFrom

variable {σ : Type} {m : Model σ} {o : Oracle} {inv : σ → Prop}

/-- A model finds the target that the oracle gives. -/
theorem target (hm : m.AnswersFrom o inv) (locals : List LocalDecl) (func : Operand) :
    (m.target locals func).Answers inv (o.target locals func) := by
  unfold Model.target Oracle.target
  rcases func.callee locals with fault | (⟨fn, args⟩ | _)
  · exact .bind_error (.of_except _)
  · refine .bind (.of_except _) ?_
    have hresolve := hm.resolve fn args
    dsimp only
    rcases h : o.resolve fn args with fault | j <;> rw [h] at hresolve
    · exact .bind_error hresolve
    · exact .bind hresolve (.pure (Edge.direct j))
  · exact .bind (.of_except _) (.pure _)

/-- A model follows a call as the oracle does, and contains its faults. -/
theorem follow (hm : m.AnswersFrom o inv) (ho : o.NeverFatal) (caller : Instance)
    (locals : List LocalDecl) (site : CallSite) :
    (m.follow caller locals site).Answers inv (.ok (o.follow caller locals site)) := by
  unfold Model.follow Oracle.follow
  have htarget := hm.target locals site.func
  rcases h : o.target locals site.func with fault | edge <;> rw [h] at htarget
  · have hfatal : ∀ message, fault ≠ .setup message := by
      rintro message rfl
      exact Oracle.target_ne_setup ho _ _ _ h
    refine .bind (.attempt_error htarget (Fault.contain_eq hfatal)) ?_
    exact .pure (Edge.broken (fault.finding.located caller.name (some site.block)))
  · exact .bind (.attempt htarget) (.pure edge)

/-- A model finds the call sites that the oracle gives. -/
theorem callSites (hm : m.AnswersFrom o inv) (i : Instance) :
    (m.callSites i).Answers inv (o.callSites i) := by
  unfold Model.callSites Oracle.callSites
  have hbodyOf := hm.bodyOf i
  rcases h : o.bodyOf i with fault | (_ | body) <;> rw [h] at hbodyOf
  · exact .bind_error hbodyOf
  · exact .bind hbodyOf (.pure ([], []))
  · refine .bind hbodyOf ?_
    dsimp only
    rcases body.calls with crash | sites
    · exact .throw (.crash crash)
    · exact .pure (body.locals, sites)

/-- Such a model gives an instance the edges of the oracle. -/
theorem edges (hm : m.AnswersFrom o inv) (ho : o.NeverFatal) (i : Instance) :
    (m.edges i).Answers inv (.ok (o.edges i)) := by
  unfold Model.edges Oracle.edges
  have hcallSites := hm.callSites i
  rcases h : o.callSites i with fault | ⟨locals, sites⟩ <;> rw [h] at hcallSites
  · have hfatal : ∀ message, fault ≠ .setup message := by
      rintro message rfl
      exact Oracle.callSites_ne_setup ho _ _ h
    refine .bind (.attempt_error hcallSites (Fault.contain_eq hfatal)) ?_
    exact .pure [Edge.broken (fault.finding.located i.name none)]
  · refine .bind (.attempt hcallSites) ?_
    exact .map_m fun site _ => hm.follow ho i locals site

/-! Some answers may be setup faults. What is found in spite of them is found by the oracle. -/

/-- What an attempt leaves is the answer, or the finding of its fault. -/
theorem attempt_eq_ok {α : Type} {q : Query σ α} {r : Except Fault α} (hq : q.Answers inv r)
    {s next : σ} (hs : inv s) {result : Except CheckFault α}
    (h : q.attempt.ask s = (.ok result, next)) :
    inv next ∧ ((∃ a, r = .ok a ∧ result = .ok a) ∨
      ∃ fault, r = .error fault ∧ result = .error fault.finding) := by
  obtain ⟨middle, hask, hmiddle⟩ := hq.ask_eq hs
  rw [Query.ask_attempt, hask] at h
  cases r with
  | ok a =>
      cases h
      exact ⟨hmiddle, Or.inl ⟨a, rfl, rfl⟩⟩
  | error fault =>
      cases hcontain : fault.contain with
      | error message =>
          simp only [hcontain] at h
          cases h
      | ok finding =>
          simp only [hcontain] at h
          cases h
          rw [← Fault.finding_of_contain hcontain]
          exact ⟨hmiddle, Or.inr ⟨fault, rfl, rfl⟩⟩

/-- A call that was followed is the edge of the oracle, whether it is never fatal or not. -/
theorem follow_eq_ok (hm : m.AnswersFrom o inv) {caller : Instance} {locals : List LocalDecl}
    {site : CallSite} {s next : σ} (hs : inv s) {edge : Edge}
    (h : (m.follow caller locals site).ask s = (.ok edge, next)) :
    inv next ∧ edge = o.follow caller locals site := by
  unfold Model.follow at h
  obtain ⟨result, middle, hask, h⟩ := Query.ask_bind_eq_ok.mp h
  obtain ⟨hmiddle, ⟨target, htarget, rfl⟩ | ⟨fault, htarget, rfl⟩⟩ :=
    attempt_eq_ok (hm.target locals site.func) hs hask
  · cases h
    exact ⟨hmiddle, by rw [Oracle.follow, htarget]⟩
  · cases h
    exact ⟨hmiddle, by rw [Oracle.follow, htarget]⟩

/-- Calls that were followed are the edges of the oracle, in their order. -/
theorem follow_all_eq_ok (hm : m.AnswersFrom o inv) {caller : Instance} {locals : List LocalDecl}
    {sites : List CallSite} {s next : σ} (hs : inv s) {found : List Edge}
    (h : (sites.mapM (m.follow caller locals)).ask s = (.ok found, next)) :
    inv next ∧ found = sites.map (o.follow caller locals) := by
  induction sites generalizing s next found with
  | nil =>
      cases h
      exact ⟨hs, rfl⟩
  | cons site sites ih =>
      rw [List.mapM_cons] at h
      obtain ⟨edge, middle, hfirst, h⟩ := Query.ask_bind_eq_ok.mp h
      obtain ⟨hmiddle, rfl⟩ := hm.follow_eq_ok hs hfirst
      obtain ⟨rest, last, hrest, h⟩ := Query.ask_bind_eq_ok.mp h
      obtain ⟨hlast, rfl⟩ := ih hmiddle hrest
      cases h
      exact ⟨hlast, rfl⟩

/-- The edges that a model found are those of the oracle. -/
theorem edges_eq_ok (hm : m.AnswersFrom o inv) {i : Instance} {s next : σ} (hs : inv s)
    {found : List Edge} (h : (m.edges i).ask s = (.ok found, next)) :
    inv next ∧ found = o.edges i := by
  unfold Model.edges at h
  obtain ⟨result, middle, hask, h⟩ := Query.ask_bind_eq_ok.mp h
  obtain ⟨hmiddle, ⟨⟨locals, sites⟩, hsites, rfl⟩ | ⟨fault, hsites, rfl⟩⟩ :=
    attempt_eq_ok (hm.callSites i) hs hask
  · rw [Oracle.edges, hsites]
    exact hm.follow_all_eq_ok hmiddle h
  · cases h
    exact ⟨hmiddle, by rw [Oracle.edges, hsites]⟩

end Model.AnswersFrom

/-- The stateless model with the answers of an oracle, and with nothing declared. -/
def Oracle.model (o : Oracle) : Model Unit where
  entryFn := pure none
  localItems := pure []
  instanceOf _ := pure none
  bodyOfItem _ := pure none
  bodyOf i := .ofExcept (o.bodyOf i)
  resolve fn args := .ofExcept (o.resolve fn args)
  localCrate := throw (.setup Program.noLocalCrate)
  externalCrates := pure []
  findCrate _ := pure none
  traitDecls := pure []
  traitDecl decl := throw (.crash (.missingKey decl.describe))
  traitImpls := pure []
  traitImpl decl := throw (.crash (.missingKey decl.describe))

/-- The model of an oracle answers from it. -/
theorem Oracle.answers_from_model (o : Oracle) : o.model.AnswersFrom o fun _ => True where
  bodyOf i := .of_except (o.bodyOf i)
  resolve fn args := .of_except (o.resolve fn args)

end MirAudit
