import MirAudit.Body.Walk

/-!
# What a walk lists

A walk that meets no unknown node lists, for each visit in turn, what lies inside it. Below a
statement or a terminator lie only operands, right-hand sides, places and types, so the calls of a
body are the terminators of its blocks. Read `Body.calls_eq` first.
-/

namespace MirAudit

/-! ## Traces -/

namespace Trace

/-- A walk goes on as long as nothing has stopped it. -/
theorem stuck_append (t u : Trace) : (t ++ u).stuck = t.stuck.or u.stuck := by
  show (Trace.append t u).stuck = _
  unfold Trace.append
  cases h : t.stuck with
  | none => simp
  | some node => simp [h]

/-- Behind a walk that was not stopped, the events of the next one follow. -/
theorem events_append {t u : Trace} (h : t.stuck = none) :
    (t ++ u).events = t.events ++ u.events := by
  show (Trace.append t u).events = _
  simp [Trace.append, h]

/-- Every event of two walks is one of the first or one of the second. -/
theorem mem_append {t u : Trace} {event : Event} (h : event ∈ (t ++ u).events) :
    event ∈ t.events ∨ event ∈ u.events := by
  change event ∈ (Trace.append t u).events at h
  unfold Trace.append at h
  split at h
  · exact Or.inl h
  · simpa using h

end Trace

namespace Visit

variable {descend : Event → Bool}

/-- Visits are walked without a stop exactly if each of them is. -/
theorem stuck_trace_all {visits : List Visit} :
    (traceAll descend visits).stuck = none ↔ ∀ v ∈ visits, (v.trace descend).stuck = none := by
  induction visits with
  | nil => simp [traceAll]
  | cons v visits ih => simp [traceAll, Trace.stuck_append, ih]

/-- The events of visits that are walked without a stop, visit by visit. -/
theorem events_trace_all {visits : List Visit} (h : (traceAll descend visits).stuck = none) :
    (traceAll descend visits).events = visits.flatMap fun v => (v.trace descend).events := by
  induction visits with
  | nil => simp [traceAll]
  | cons v visits ih =>
      simp only [traceAll, Trace.stuck_append, Option.or_eq_none_iff] at h
      simp [traceAll, Trace.events_append h.1, ih h.2]

/-- An event of several visits is an event of one of them. -/
theorem mem_trace_all {visits : List Visit} {event : Event}
    (h : event ∈ (traceAll descend visits).events) :
    ∃ v ∈ visits, event ∈ (v.trace descend).events := by
  induction visits with
  | nil => simp [traceAll] at h
  | cons v visits ih =>
      simp only [traceAll] at h
      rcases Trace.mem_append h with h | h
      · exact ⟨v, List.mem_cons_self, h⟩
      · obtain ⟨w, hw, hevent⟩ := ih h
        exact ⟨w, List.mem_cons_of_mem v hw, hevent⟩

/-- A full walk meets the event of a visit first. -/
theorem trace_node (event : Event) (inner : List Visit) :
    (Visit.node event inner).trace (fun _ => true) =
      ⟨event :: (traceAll (fun _ => true) inner).events,
        (traceAll (fun _ => true) inner).stuck⟩ := by
  rw [trace]
  rfl

/-- An event inside a full walk of a visit is the visit's own or lies inside it. -/
theorem mem_trace_node {event other : Event} {inner : List Visit}
    (h : other ∈ ((Visit.node event inner).trace fun _ => true).events) :
    other = event ∨ ∃ v ∈ inner, other ∈ (v.trace fun _ => true).events := by
  rw [trace_node] at h
  rcases List.mem_cons.mp h with h | h
  · exact Or.inl h
  · exact Or.inr (mem_trace_all h)

end Visit

/-! ## Below statements and terminators -/

/-- An event below a statement or a terminator. -/
def Event.IsInner : Event → Prop
  | .rvalue _ _ | .operand _ _ | .place _ _ | .ty _ _ => True
  | _ => False

theorem inner_of_mem_place {loc : Location} {slot : Slot} {event : Event}
    (h : event ∈ ((visitPlace loc slot).trace fun _ => true).events) : event.IsInner := by
  rcases Visit.mem_trace_node h with rfl | ⟨v, hv, _⟩
  · trivial
  · simp at hv

theorem inner_of_mem_ty {loc : Option Location} {ty : Ty} {event : Event}
    (h : event ∈ ((visitTy loc ty).trace fun _ => true).events) : event.IsInner := by
  rcases Visit.mem_trace_node h with rfl | ⟨v, hv, _⟩
  · trivial
  · simp at hv

/-- Nothing is met at an unknown node. -/
theorem not_mem_unknown {node : UnknownNode} {event : Event} :
    event ∉ ((Visit.unknown node).trace fun _ => true).events := by
  simp [Visit.trace]

theorem inner_of_mem_operand {loc : Location} {operand : Operand} {event : Event}
    (h : event ∈ ((operand.visit loc).trace fun _ => true).events) : event.IsInner := by
  rcases Visit.mem_trace_node h with rfl | ⟨v, hv, hevent⟩
  · trivial
  · cases operand <;> simp only [List.mem_singleton] at hv <;> subst hv
    · exact inner_of_mem_place hevent
    · exact inner_of_mem_place hevent
    · exact inner_of_mem_ty hevent
    · exact absurd hevent not_mem_unknown

theorem inner_of_mem_rvalue {loc : Location} {rvalue : Rvalue} {event : Event}
    (h : event ∈ ((rvalue.visit loc).trace fun _ => true).events) : event.IsInner := by
  rcases Visit.mem_trace_node h with rfl | ⟨v, hv, hevent⟩
  · trivial
  · cases rvalue with
    | use operand =>
        simp only [List.mem_singleton] at hv
        subst hv
        exact inner_of_mem_operand hevent
    | binary op lhs rhs =>
        simp only [List.mem_cons, List.not_mem_nil, or_false] at hv
        rcases hv with rfl | rfl <;> exact inner_of_mem_operand hevent
    | ref slot mutable =>
        simp only [List.mem_singleton] at hv
        subst hv
        exact inner_of_mem_place hevent
    | cast operand ty =>
        simp only [List.mem_cons, List.not_mem_nil, or_false] at hv
        rcases hv with rfl | rfl
        · exact inner_of_mem_operand hevent
        · exact inner_of_mem_ty hevent
    | aggregate ty operands =>
        simp only [List.mem_cons, List.mem_map] at hv
        rcases hv with rfl | ⟨operand, _, rfl⟩
        · exact inner_of_mem_ty hevent
        · exact inner_of_mem_operand hevent
    | unknown kind =>
        simp only [List.mem_singleton] at hv
        subst hv
        exact absurd hevent not_mem_unknown

/-- The full walk of a statement meets the statement, and then what lies below it. -/
theorem Statement.events_visit (loc : Location) (statement : Statement) :
    ∃ below, ((statement.visit loc).trace fun _ => true).events
        = .statement loc statement :: below ∧ ∀ event ∈ below, event.IsInner := by
  refine ⟨_, by rw [Statement.visit.eq_def, Visit.trace_node], fun event h => ?_⟩
  obtain ⟨v, hv, hevent⟩ := Visit.mem_trace_all h
  cases statement with
  | assign slot rvalue =>
      simp only [List.mem_cons, List.not_mem_nil, or_false] at hv
      rcases hv with rfl | rfl
      · exact inner_of_mem_place hevent
      · exact inner_of_mem_rvalue hevent
  | storageLive slot | storageDead slot =>
      simp only [List.mem_singleton] at hv
      subst hv
      exact inner_of_mem_place hevent
  | nop => simp at hv
  | unknown kind =>
      simp only [List.mem_singleton] at hv
      subst hv
      exact absurd hevent not_mem_unknown

/-- The full walk of a terminator meets the terminator, and then what lies below it. -/
theorem Terminator.events_visit (loc : Location) (terminator : Terminator) :
    ∃ below, ((terminator.visit loc).trace fun _ => true).events
        = .terminator loc terminator :: below ∧ ∀ event ∈ below, event.IsInner := by
  refine ⟨_, by rw [Terminator.visit.eq_def, Visit.trace_node], fun event h => ?_⟩
  obtain ⟨v, hv, hevent⟩ := Visit.mem_trace_all h
  cases terminator with
  | goto target => simp at hv
  | «return» => simp at hv
  | unreachable => simp at hv
  | switch discr targets otherwise =>
      simp only [List.mem_singleton] at hv
      subst hv
      exact inner_of_mem_operand hevent
  | call func args dest target =>
      simp only [List.mem_cons, List.mem_append, List.mem_map, List.not_mem_nil,
        or_false] at hv
      rcases hv with rfl | ⟨operand, _, rfl⟩ | rfl
      · exact inner_of_mem_operand hevent
      · exact inner_of_mem_operand hevent
      · exact inner_of_mem_place hevent
  | drop slot target =>
      simp only [List.mem_singleton] at hv
      subst hv
      exact inner_of_mem_place hevent
  | assert cond expected target =>
      simp only [List.mem_singleton] at hv
      subst hv
      exact inner_of_mem_operand hevent
  | unknown kind =>
      simp only [List.mem_singleton] at hv
      subst hv
      exact absurd hevent not_mem_unknown

theorem LocalDecl.events_visit (slot : Nat) (decl : LocalDecl) :
    ((decl.visit slot).trace fun _ => true).events = [.localDecl slot decl, .ty none decl.ty] :=
  rfl

/-- The full walk of a block meets the block, its statements and then its terminator. -/
theorem Block.events_visit {index : Nat} {block : Block}
    (h : ((block.visit index).trace fun _ => true).stuck = none) :
    ((block.visit index).trace fun _ => true).events = .block index ::
      ((block.statements.mapIdx fun i s => s.visit ⟨index, i⟩).flatMap fun v =>
          (v.trace fun _ => true).events)
        ++ ((block.terminator.visit ⟨index, block.statements.length⟩).trace
          fun _ => true).events := by
  rw [Block.visit, Visit.trace_node] at h ⊢
  simp [Visit.events_trace_all h]

/-! ## Calls -/

/-- The call that ends a block, if the block ends in one. -/
def Block.callSites (index : Nat) (block : Block) : List CallSite :=
  match block.terminator with
  | .call func _ _ _ => [⟨index, func⟩]
  | _ => []

/-- The calls that end the blocks of a body, in block order. -/
def Body.callSites (b : Body) : List CallSite :=
  (b.blocks.mapIdx Block.callSites).flatten

/-- A call site names a block that ends in a call of its operand. -/
theorem Body.mem_callSites {b : Body} {site : CallSite} :
    site ∈ b.callSites ↔ ∃ block, b.blocks[site.block]? = some block ∧
      ∃ args dest target, block.terminator = .call site.func args dest target := by
  obtain ⟨index, func⟩ := site
  simp only [Body.callSites, List.mem_flatten, List.mem_mapIdx]
  constructor
  · intro h
    obtain ⟨_, ⟨i, hi, rfl⟩, hsite⟩ := h
    unfold Block.callSites at hsite
    split at hsite
    next f args dest target hterminator =>
      obtain ⟨rfl, rfl⟩ := by simpa using hsite
      exact ⟨_, List.getElem?_eq_getElem hi, args, dest, target, hterminator⟩
    next => simp at hsite
  · intro h
    obtain ⟨block, hblock, args, dest, target, hterminator⟩ := h
    obtain ⟨hi, rfl⟩ := List.getElem?_eq_some_iff.mp hblock
    exact ⟨_, ⟨index, hi, rfl⟩, by simp [Block.callSites, hterminator]⟩

theorem Event.call_of_inner {event : Event} (h : event.IsInner) : event.call? = none := by
  cases event <;> first | rfl | exact h.elim

/-- A walk of a block that is not stopped meets exactly the call that ends the block. -/
theorem Block.calls_visit {index : Nat} {block : Block}
    (h : ((block.visit index).trace fun _ => true).stuck = none) :
    ((block.visit index).trace fun _ => true).events.filterMap Event.call?
      = block.callSites index := by
  -- nothing that a statement holds is a call, so only the terminator counts
  have hstatements : ((block.statements.mapIdx fun i s => s.visit ⟨index, i⟩).flatMap fun v =>
      (v.trace fun _ => true).events).filterMap Event.call? = [] := by
    rw [List.filterMap_eq_nil_iff]
    intro event hevent
    obtain ⟨v, hv, hevent⟩ := List.mem_flatMap.mp hevent
    obtain ⟨i, hi, rfl⟩ := List.mem_mapIdx.mp hv
    obtain ⟨below, hbelow, hinner⟩ := Statement.events_visit ⟨index, i⟩ block.statements[i]
    rw [hbelow] at hevent
    rcases List.mem_cons.mp hevent with rfl | hevent
    · rfl
    · exact Event.call_of_inner (hinner event hevent)
  obtain ⟨below, hbelow, hinner⟩ :=
    Terminator.events_visit ⟨index, block.statements.length⟩ block.terminator
  have hrest : below.filterMap Event.call? = [] := by
    rw [List.filterMap_eq_nil_iff]
    exact fun event hevent => Event.call_of_inner (hinner event hevent)
  rw [Block.events_visit h, hbelow]
  simp only [List.cons_append, List.filterMap_cons, Event.call?, List.filterMap_append,
    hstatements, List.nil_append, hrest]
  unfold Block.callSites
  cases block.terminator <;> rfl

/-- A walk that is not stopped finds the calls that end the blocks, in block order. -/
theorem Body.calls_eq {b : Body} (h : b.walk.stuck = none) : b.calls = .ok b.callSites := by
  have hwalk := Visit.stuck_trace_all.mp h
  have hevents : b.walk.events = _ := Visit.events_trace_all h
  have hblocks : (b.blocks.mapIdx Block.visit).flatMap
      (fun v => (v.trace fun _ => true).events.filterMap Event.call?) = b.callSites := by
    unfold Body.callSites
    rw [List.flatMap_def]
    refine congrArg List.flatten (List.ext_getElem (by simp) fun i hi _ => ?_)
    have hblock : i < b.blocks.length := by simpa using hi
    simp only [List.getElem_map, List.getElem_mapIdx]
    refine Block.calls_visit (hwalk _ (List.mem_append_left _ ?_))
    exact List.mem_mapIdx.mpr ⟨i, hblock, rfl⟩
  have hlocals : (b.locals.mapIdx LocalDecl.visit).flatMap
      (fun v => (v.trace fun _ => true).events.filterMap Event.call?) = [] := by
    rw [List.flatMap_eq_nil_iff]
    intro v hv
    obtain ⟨slot, hslot, rfl⟩ := List.mem_mapIdx.mp hv
    rfl
  simp only [Body.calls, Trace.complete, h, Except.map]
  rw [hevents, List.filterMap_flatMap, Body.visits, List.flatMap_append, hblocks, hlocals,
    List.append_nil]

/-- The calls among the events of a walk that is not stopped. -/
theorem Body.filter_map_call {b : Body} (h : b.walk.stuck = none) :
    b.walk.events.filterMap Event.call? = b.callSites := by
  have hcalls := Body.calls_eq h
  rw [Body.calls, Trace.complete, h] at hcalls
  exact Except.ok.inj hcalls

/-- A walk that meets an unknown node finds no calls at all. -/
theorem Body.calls_stuck {b : Body} {node : UnknownNode} (h : b.walk.stuck = some node) :
    b.calls = .error (.unknownNode node) := by
  simp [Body.calls, Trace.complete, h, Except.map]

end MirAudit
