import MirAudit.Proofs.Discovery.Log
import MirAudit.Proofs.Discovery.Search
import MirAudit.Program.Shorthand

/-!
# What a search of a model finds

A model whose answers are fixed runs the search over the edges of its oracle. When finitely many
instances can be reached from the roots, `discover_reachable` gives the end of the search: exactly
the instances that can be reached, each entered once and each body asked for once.
-/

namespace MirAudit

variable {σ : Type} {m : Model σ} {o : Oracle} {inv : σ → Prop}

/-- A step of a search on such a model is a step over the edges of the oracle. -/
theorem Model.AnswersFrom.step (hm : m.AnswersFrom o inv) (ho : o.NeverFatal) (d : Discovery) :
    (m.step d).Answers inv (.ok (d.advance o.edges)) := by
  unfold Model.step Discovery.advance
  rcases d.pending with _ | ⟨i, rest⟩ <;> dsimp only
  · exact .pure d
  · by_cases hi : d.contains i = true
    · rw [if_pos hi, if_pos hi]
      exact .pure _
    · rw [if_neg hi, if_neg hi]
      exact .bind (hm.edges ho i) (.pure _)

theorem Model.AnswersFrom.step_eq_ok (hm : m.AnswersFrom o inv) {d following : Discovery}
    {s next : σ} (hs : inv s) (h : (m.step d).ask s = (.ok following, next)) :
    inv next ∧ following = d.advance o.edges := by
  unfold Model.step at h
  unfold Discovery.advance
  rcases hpending : d.pending with _ | ⟨i, rest⟩ <;> simp only [hpending] at h ⊢
  · cases h
    exact ⟨hs, rfl⟩
  · by_cases hi : d.contains i = true
    · rw [if_pos hi] at h ⊢
      cases h
      exact ⟨hs, rfl⟩
    · rw [if_neg hi] at h ⊢
      obtain ⟨found, middle, hedges, h⟩ := Query.ask_bind_eq_ok.mp h
      obtain ⟨hmiddle, rfl⟩ := hm.edges_eq_ok hs hedges
      cases h
      exact ⟨hmiddle, rfl⟩

/-- The point that a search has come to after `n` steps. -/
def Model.after (m : Model σ) : (n : Nat) → Discovery → Query σ Discovery
  | 0, d => pure d
  | n + 1, d => do m.after n (← m.step d)

/-- On such a model the points of a search are the same, and no step fails. -/
theorem Model.AnswersFrom.after (hm : m.AnswersFrom o inv) (ho : o.NeverFatal) (n : Nat)
    (d : Discovery) : (m.after n d).Answers inv (.ok ((Discovery.advance o.edges)^[n] d)) := by
  induction n generalizing d with
  | zero => exact .pure d
  | succ n ih => exact .bind (hm.step ho d) (ih _)

/-- A search that ends does so at one of its points. -/
theorem Model.exists_after_of_explore {fuel : Nat} {d last : Discovery} {s next : σ}
    (h : (m.explore fuel d).outcome s = (.ok last, next)) :
    ∃ n, (m.after n d).ask s = (.ok last, next) := by
  refine Model.explore_induction
    (motive := fun _ d s => ∃ n, (m.after n d).ask s = (.ok last, next)) ?done ?step h
  case done => exact fun _ _ => ⟨0, rfl⟩
  case step =>
    intro _ d s following middle _ hstep ih
    obtain ⟨n, hn⟩ := ih
    exact ⟨n + 1, Query.ask_bind_eq_ok.mpr ⟨following, middle, hstep, hn⟩⟩

/-- A search of a model with fixed answers is the search over the edges of its oracle. -/
theorem Model.AnswersFrom.explore (hm : m.AnswersFrom o inv) (ho : o.NeverFatal) (fuel : Nat)
    (d : Discovery) {s : σ} (hs : inv s) :
    ∃ next, inv next ∧ (m.explore fuel d).outcome s =
      (match d.search o.edges fuel with
        | some last => .ok last
        | none => .error .outOfFuel, next) := by
  -- both loops spend fuel at the same steps, and the invariant carries the state along
  induction fuel generalizing d s with
  | zero =>
      refine ⟨s, hs, ?_⟩
      unfold Model.explore Discovery.search
      by_cases hempty : d.pending.isEmpty = true
      · rw [if_pos hempty, if_pos hempty]
        rfl
      · rw [if_neg hempty, if_neg hempty]
        rfl
  | succ fuel ih =>
      unfold Discovery.search
      by_cases hempty : d.pending.isEmpty = true
      · rw [Model.explore_of_done hempty, if_pos hempty]
        exact ⟨s, hs, rfl⟩
      · obtain ⟨middle, hstep, hmiddle⟩ := (hm.step ho d).ask_eq hs
        rw [Model.explore_of_step hempty hstep, if_neg hempty]
        exact ih (d.advance o.edges) hmiddle

/-- A search that ends, though some answers may be setup faults, is the search over the edges of the
oracle. -/
theorem Model.AnswersFrom.search_of_explore (hm : m.AnswersFrom o inv) {fuel : Nat}
    {d last : Discovery} {s next : σ} (hs : inv s)
    (h : (m.explore fuel d).outcome s = (.ok last, next)) : d.search o.edges fuel = some last := by
  refine Model.explore_induction
    (motive := fun fuel d s => inv s → d.search o.edges fuel = some last) ?done ?step h hs
  case done =>
    intro fuel hempty _
    unfold Discovery.search
    exact if_pos hempty
  case step =>
    intro fuel d s following middle hpending hstep ih hs
    obtain ⟨hmiddle, rfl⟩ := hm.step_eq_ok hs hstep
    unfold Discovery.search
    rw [if_neg hpending]
    exact ih hmiddle

/-- More fuel changes nothing about a search that ended. -/
theorem Model.explore_mono {fuel more : Nat} {d last : Discovery} {s next : σ}
    (hle : fuel ≤ more) (h : (m.explore fuel d).outcome s = (.ok last, next)) :
    (m.explore more d).outcome s = (.ok last, next) := by
  refine Model.explore_induction (motive := fun fuel d s => ∀ more, fuel ≤ more →
    (m.explore more d).outcome s = (.ok last, next)) ?done ?step h more hle
  case done => exact fun _ hempty _ _ => Model.explore_of_done hempty
  case step =>
    intro fuel d s following middle hpending hstep ih more hle
    obtain ⟨more, rfl⟩ : ∃ k, more = k + 1 := ⟨more - 1, by omega⟩
    rw [Model.explore_of_step hpending hstep]
    exact ih more (by omega)

/-- However much fuel there is, a search has one end. -/
theorem Model.explore_unique {fuel fuel' : Nat} {d last last' : Discovery} {s : σ}
    (h : ((m.explore fuel d).outcome s).1 = .ok last)
    (h' : ((m.explore fuel' d).outcome s).1 = .ok last') : last = last' := by
  have hmore := Model.explore_mono (Nat.le_max_left fuel fuel') (Prod.ext h rfl)
  have hmore' := Model.explore_mono (Nat.le_max_right fuel fuel') (Prod.ext h' rfl)
  rw [hmore] at hmore'
  exact Except.ok.inj (congrArg Prod.fst hmore')

theorem Oracle.hasCallee_iff {i j : Instance} :
    Discovery.HasCallee o.edges i j ↔ o.Calls i j :=
  mem_callees_iff

/-- `i` is a root or can be reached from one through calls that can be followed. -/
def Oracle.Reaches (o : Oracle) (roots : List Instance) (i : Instance) : Prop :=
  ∃ root ∈ roots, Relation.ReflTransGen o.Calls root i

theorem Oracle.reaches_iff {roots : List Instance} {i : Instance} :
    Discovery.Reaches o.edges roots i ↔ o.Reaches roots i := by
  have hcalls : Discovery.HasCallee o.edges = o.Calls := by
    funext i j
    exact propext hasCallee_iff
  rw [Discovery.Reaches, hcalls, Oracle.Reaches]

/-- A set that holds the roots and is closed under calls holds everything that can be reached. -/
theorem Oracle.Reaches.mem_of_closed {roots : List Instance} {bound : Finset Instance}
    (hroots : ∀ root ∈ roots, root ∈ bound)
    (hclosed : ∀ i ∈ bound, ∀ j, o.Calls i j → j ∈ bound) {i : Instance}
    (h : o.Reaches roots i) : i ∈ bound := by
  obtain ⟨root, hroot, hpath⟩ := h
  induction hpath with
  | refl => exact hroots _ hroot
  | tail _ hcall ih => exact hclosed _ ih _ hcall

/-- If a finite set holds the roots and is closed under the calls that can be followed, the search
ends, with any fuel from some point on. It has entered each instance that can be reached from the
roots exactly once, and asked for the body of each exactly once, in that order. -/
theorem discover_reachable (hm : m.AnswersFrom o inv) (ho : o.NeverFatal) (roots : List Instance)
    (bound : Finset Instance) (hroots : ∀ root ∈ roots, root ∈ bound)
    (hclosed : ∀ i ∈ bound, ∀ j, o.Calls i j → j ∈ bound) {s : σ} (hs : inv s) :
    ∃ d next enough,
      (∀ fuel, enough ≤ fuel →
        (m.discover fuel roots).outcome s = (.ok d, next) ∧
        (m.logged.discover fuel roots).outcome (s, []) = (.ok d, next, d.instances)) ∧
      d.instances.Nodup ∧ (∀ i, i ∈ d.visited ↔ i ∈ d.instances) ∧
      ∀ i, i ∈ d.instances ↔ o.Reaches roots i := by
  have hbound : ∀ i, Discovery.Reaches o.edges roots i → i ∈ bound := fun i hi =>
    (Oracle.reaches_iff.mp hi).mem_of_closed hroots hclosed
  obtain ⟨enough, d, hd⟩ :=
    Discovery.search_ends hbound (Discovery.Faithful.start o.edges roots)
  obtain ⟨hfaithful, -⟩ := (Discovery.Faithful.start o.edges roots).search hd
  obtain ⟨next, -, houtcome⟩ := hm.explore ho enough (.start roots) hs
  rw [hd] at houtcome
  obtain ⟨entered, hentered, hlogged⟩ := Model.explore_logged houtcome []
  obtain rfl : d.instances = entered := hentered
  refine ⟨d, next, enough, fun fuel hfuel => ?_, hfaithful.nodup, hfaithful.visited_iff, ?_⟩
  · exact ⟨Model.explore_mono hfuel houtcome, Model.explore_mono hfuel hlogged⟩
  · intro i
    rw [Discovery.mem_instances_of_search hd, Oracle.reaches_iff]

/-- The instance without arguments of a function of the crate `game`. -/
def Instance.inGame (path : String) : Instance :=
  ⟨⟨"game", path⟩, []⟩

/-- The operand that names a function of the crate `game`. -/
def Operand.inGame (path : String) : Operand :=
  .const (.fnDef ⟨"game", path⟩ []) .unit

/-- Two functions that call each other. One of them also calls a function that cannot be resolved,
and no other body can be read. -/
def Oracle.rally : Oracle where
  bodyOf i :=
    if i = .inGame "ping" then .ok (some (.callChain [.inGame "pong"] []))
    else if i = .inGame "pong" then .ok (some (.callChain [.inGame "umpire", .inGame "ping"] []))
    else .error (.crash .outOfRange)
  resolve fn args :=
    if fn = ⟨"game", "umpire"⟩ then .error (ResolutionFault.unknownFn fn).toFault
    else .ok ⟨fn, args⟩

/-- The search from either of two functions that call each other ends with both of them. -/
theorem discover_reachable_rally :
    ∃ d next enough,
      (∀ fuel, enough ≤ fuel →
        (Oracle.rally.model.discover fuel [.inGame "ping"]).outcome () = (.ok d, next) ∧
        (Oracle.rally.model.logged.discover fuel [.inGame "ping"]).outcome ((), []) =
          (.ok d, next, d.instances)) ∧
      d.instances.Nodup ∧ (∀ i, i ∈ d.visited ↔ i ∈ d.instances) ∧
      ∀ i, i ∈ d.instances ↔ Oracle.rally.Reaches [.inGame "ping"] i := by
  refine discover_reachable Oracle.rally.answers_from_model ?_ [.inGame "ping"]
    {.inGame "ping", .inGame "pong"} (by decide) ?_ trivial
  · refine ⟨fun i message => ?_, fun fn args message => ?_⟩
    · simp only [Oracle.rally]
      split_ifs <;> simp
    · simp only [Oracle.rally]
      split_ifs <;> simp [ResolutionFault.toFault]
  · have hcallees : ∀ i ∈ ({.inGame "ping", .inGame "pong"} : Finset Instance),
        ∀ j ∈ (Oracle.rally.edges i).filterMap Edge.callee?,
          j ∈ ({.inGame "ping", .inGame "pong"} : Finset Instance) := by
      decide +kernel
    exact fun i hi j hj => hcallees i hi j (Oracle.mem_callees_iff.mpr hj)

end MirAudit
