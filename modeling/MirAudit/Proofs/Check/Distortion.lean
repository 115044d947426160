import Mathlib.Algebra.GroupWithZero.Nat
import Mathlib.Algebra.Order.BigOperators.Group.List
import Mathlib.Algebra.Order.Group.Nat
import MirAudit.Check.Distortion
import MirAudit.Proofs.Check.Snapshot

/-!
# What a comparison notices

A distortion skips parts of a walk, makes them twice, or changes the snapshot. One that does none of
this leaves the check as it is. Any other check passes exactly if its walk ends and what is left is
faithful, and then it has met every block and every terminator once, so a skipped or repeated block
is always noticed. Read `Distortion.check_eq_ok` first.
-/

namespace MirAudit

/-! ## How much a snapshot records -/

/-- The event of a block. -/
def Event.isBlock : Event → Bool
  | .block _ => true
  | _ => false

/-- The event of a terminator. -/
def Event.isTerminator : Event → Bool
  | .terminator _ _ => true
  | _ => false

/-- An element put elsewhere in a list does not make it longer. -/
theorem Position.length_set {α : Type} (xs : List α) (i : Int) (a : α) :
    (Position.set xs i a).length = xs.length := by
  unfold Position.set
  split
  · exact List.length_set
  · rfl

namespace Snapshot

/-- An element added to the last list leaves as many lists. -/
theorem length_extend_last {α : Type} (a : α) (lists : List (List α)) :
    (extendLast a lists).length = lists.length := by
  induction lists using extendLast.induct with
  | case1 | case2 => rfl
  | case3 list lists hmore ih =>
      rw [extendLast, List.length_cons, ih, List.length_cons]
      exact hmore

/-- A snapshot holds a list of statements for each block that was met, and each terminator that was
met. -/
theorem lengths_of_events (events : List Event) :
    (ofEvents events).statements.length = events.countP Event.isBlock ∧
      (ofEvents events).terminators.length = events.countP Event.isTerminator := by
  have hfold : ∀ s : Snapshot,
      (events.foldl observe s).statements.length =
          s.statements.length + events.countP Event.isBlock ∧
        (events.foldl observe s).terminators.length =
          s.terminators.length + events.countP Event.isTerminator := by
    induction events with
    | nil => exact fun s => ⟨rfl, rfl⟩
    | cons event events ih =>
        intro s
        obtain ⟨hstatements, hterminators⟩ := ih (s.observe event)
        rw [List.foldl_cons, hstatements, hterminators, List.countP_cons, List.countP_cons]
        cases event <;>
          simp [observe, length_extend_last, Event.isBlock, Event.isTerminator] <;> omega
  obtain ⟨hblocks, hterminators⟩ := hfold {}
  exact ⟨hblocks.trans (Nat.zero_add _), hterminators.trans (Nat.zero_add _)⟩

end Snapshot

namespace Distortion

/-! ## No distortion -/

/-- Without a distortion the visits inside a block stay. -/
theorem amend_inner_none (visit : Visit) : ({} : Distortion).amendInner visit = [visit] := by
  unfold amendInner
  split <;> rfl

/-- Without a distortion the visits of a body stay. -/
theorem amend_none (visit : Visit) : ({} : Distortion).amend visit = [visit] := by
  unfold amend
  split
  next index inner =>
    have hinner : inner.flatMap ({} : Distortion).amendInner = inner :=
      (congrArg inner.flatMap (funext amend_inner_none)).trans (List.flatMap_singleton' inner)
    rw [hinner]
    rfl
  next => rfl

/-- Without a distortion the walk is the walk of the body. -/
theorem walk_none (b : Body) : ({} : Distortion).walk b = b.walk := by
  have hvisits : b.visits.flatMap ({} : Distortion).amend = b.visits :=
    (congrArg b.visits.flatMap (funext amend_none)).trans (List.flatMap_singleton' b.visits)
  have hrecords : ∀ event ∈ b.walk.events, ({} : Distortion).records event = true := by
    intro event _
    unfold records
    split <;> rfl
  unfold walk
  rw [hvisits]
  exact congrArg (Trace.mk · b.walk.stuck) (List.filter_eq_self.mpr hrecords)

/-- Without a distortion the snapshot stays. -/
theorem change_none (s : Snapshot) : ({} : Distortion).change s = s := by
  have htypes : s.types.filter (fun ty => ({} : Distortion).forgetType ≠ some ty) = s.types :=
    List.filter_eq_self.mpr fun _ _ => rfl
  unfold change
  rw [htypes]
  rfl

/-- Without a distortion the check is the check of the body. -/
theorem check_none (name : String) (b : Body) : ({} : Distortion).check name b = b.check name := by
  unfold check
  rw [walk_none]
  simp only [change_none]
  rfl

/-! ## What passes -/

variable {d : Distortion} {name : String} {b : Body} {s : Snapshot}

/-- A distorted check passes exactly if the walk ends and the snapshot that is left is faithful. -/
theorem check_eq_ok :
    d.check name b = .ok s ↔
      ∃ events, (d.walk b).complete = .ok events ∧ d.change (Snapshot.ofEvents events) = s ∧
        s.Faithful b := by
  unfold check
  cases hwalk : (d.walk b).complete with
  | error crash => simp
  | ok events =>
      show liftFault ((d.change (Snapshot.ofEvents events)).compare name b) >>= _ = _ ↔ _
      simp only [Except.ok.injEq, exists_eq_left']
      rcases (d.change (Snapshot.ofEvents events)).compare_cases name b with
        ⟨hok, hfaithful⟩ | ⟨fault, herror, hunfaithful, -⟩
      · rw [hok]
        constructor
        · rintro ⟨⟩
          exact ⟨rfl, hfaithful⟩
        · rintro ⟨rfl, -⟩
          rfl
      · rw [herror]
        constructor
        · rintro ⟨⟩
        · rintro ⟨rfl, hfaithful⟩
          exact absurd hfaithful hunfaithful

/-! ## How often a block is met -/

/-- Exchanging two elements leaves as many. -/
theorem length_swap {α : Type} (i j : Int) (xs : List α) : (swap i j xs).length = xs.length := by
  unfold swap
  split
  · rw [Position.length_set, Position.length_set]
  · rfl

/-- Another element in one of the lists leaves as many lists. -/
theorem length_replace_in {α : Type} (i j : Int) (a : α) (lists : List (List α)) :
    (replaceIn i j a lists).length = lists.length := by
  unfold replaceIn
  split
  · exact Position.length_set _ _ _
  · rfl

/-- The changes keep the number of blocks and of terminators. -/
theorem lengths_change (d : Distortion) (s : Snapshot) :
    (d.change s).statements.length = s.statements.length ∧
      (d.change s).terminators.length = s.terminators.length := by
  unfold change
  constructor
  · cases d.reverseStatements <;> cases d.replaceStatement <;> simp [length_replace_in]
  · cases d.replaceTerminator <;> cases d.swapTerminators <;>
      simp [Position.length_set, length_swap]

/-- A check that passes was not stopped, and has met as many blocks and as many terminators as the
body has. -/
theorem counts_of_check (h : d.check name b = .ok s) :
    (d.walk b).stuck = none ∧ (d.walk b).events.countP Event.isBlock = b.blocks.length ∧
      (d.walk b).events.countP Event.isTerminator = b.blocks.length := by
  obtain ⟨events, hwalk, rfl, hfaithful⟩ := check_eq_ok.mp h
  obtain ⟨hblocks, hterminators⟩ := hfaithful.counts
  obtain ⟨hstatements, hends⟩ := d.lengths_change (Snapshot.ofEvents events)
  obtain ⟨hmet, hseen⟩ := Snapshot.lengths_of_events events
  unfold Trace.complete at hwalk
  split at hwalk <;> cases hwalk
  next hstuck => exact ⟨hstuck, by omega, by omega⟩

/-- How often the distorted walk meets a block. -/
def copies (d : Distortion) (index : Nat) : Nat :=
  if d.skipBlock = some (index : Int) then 0
  else if d.repeatBlock = some (index : Int) then 2
  else 1

/-- The visit meets no block. -/
def Blockless (visit : Visit) : Prop :=
  ∀ event ∈ (visit.trace fun _ => true).events, event.isBlock = false

/-- Below a statement or a terminator lies no block. -/
theorem not_block_of_inner {event : Event} (h : event.IsInner) : event.isBlock = false := by
  cases event <;> first | rfl | exact h.elim

/-- A visit meets no block if it starts with something else and goes on below it. -/
theorem blockless_of_inner {visit : Visit} {event : Event} {below : List Event}
    (hevents : (visit.trace fun _ => true).events = event :: below) (hevent : event.isBlock = false)
    (hbelow : ∀ inner ∈ below, inner.IsInner) : Blockless visit := by
  unfold Blockless
  rw [hevents]
  exact List.forall_mem_cons.mpr ⟨hevent, fun inner hinner => not_block_of_inner (hbelow inner hinner)⟩

/-- A statement meets no block. -/
theorem blockless_statement (loc : Location) (statement : Statement) :
    Blockless (statement.visit loc) := by
  obtain ⟨below, hevents, hbelow⟩ := statement.events_visit loc
  exact blockless_of_inner hevents rfl hbelow

/-- A terminator meets no block. -/
theorem blockless_terminator (loc : Location) (terminator : Terminator) :
    Blockless (terminator.visit loc) := by
  obtain ⟨below, hevents, hbelow⟩ := terminator.events_visit loc
  exact blockless_of_inner hevents rfl hbelow

/-- What is visited in place of a part of a block meets no block either. -/
theorem blockless_of_amend_inner {visit other : Visit} (h : Blockless visit)
    (hother : other ∈ d.amendInner visit) : Blockless other := by
  unfold amendInner at hother
  split at hother
  next loc statement inner =>
    split at hother
    · cases hother
    · exact List.mem_singleton.mp hother ▸ h
  next loc terminator inner =>
    have hbare : Blockless (.node (.terminator loc terminator) []) := by
      unfold Blockless
      rw [Visit.trace_node]
      exact List.forall_mem_singleton.mpr rfl
    split at hother
    · cases hother
    split at hother
    · rcases List.mem_cons.mp hother with rfl | hother
      · exact hbare
      · exact List.mem_singleton.mp hother ▸ h
    · exact List.mem_singleton.mp hother ▸ h
  next => exact List.mem_singleton.mp hother ▸ h

/-- A visit of a block whose parts meet no block meets one block. -/
theorem count_blocks_node (index : Nat) {parts : List Visit} (h : ∀ part ∈ parts, Blockless part) :
    ((Visit.node (.block index) parts).trace fun _ => true).events.countP Event.isBlock = 1 := by
  have hnone : (Visit.traceAll (fun _ => true) parts).events.countP Event.isBlock = 0 := by
    refine List.countP_eq_zero.mpr fun event hevent => ?_
    obtain ⟨part, hpart, hmem⟩ := Visit.mem_trace_all hevent
    rw [h part hpart event hmem]
    exact Bool.false_ne_true
  rw [Visit.trace_node, List.countP_cons, hnone]
  rfl

/-- A block is met as often as its visit is made. -/
theorem count_blocks_amend (index : Nat) (block : Block) :
    ((d.amend (block.visit index)).flatMap fun v => (v.trace fun _ => true).events).countP
      Event.isBlock = d.copies index := by
  obtain ⟨statements, terminator⟩ := block
  have hparts : ∀ part ∈ (statements.mapIdx (fun i statement => statement.visit ⟨index, i⟩) ++
      [terminator.visit ⟨index, statements.length⟩]).flatMap d.amendInner, Blockless part := by
    intro part hpart
    obtain ⟨whole, hwhole, hpart⟩ := List.mem_flatMap.mp hpart
    refine blockless_of_amend_inner ?_ hpart
    rcases List.mem_append.mp hwhole with hstatement | hterminator
    · obtain ⟨i, hi, rfl⟩ := List.mem_mapIdx.mp hstatement
      exact blockless_statement _ _
    · obtain rfl := List.mem_singleton.mp hterminator
      exact blockless_terminator _ _
  have hone := count_blocks_node index hparts
  unfold copies
  show ((if d.skipBlock = some (index : Int) then [] else
    if d.repeatBlock = some (index : Int) then [_, _] else [_]).flatMap _).countP _ = _
  split
  · rfl
  split
  · simp only [List.flatMap_cons, List.flatMap_nil, List.append_nil, List.countP_append, hone]
  · simp only [List.flatMap_cons, List.flatMap_nil, List.append_nil, hone]

/-- A walk that ends has met each block as often as the distortion says. -/
theorem count_blocks_walk (h : (d.walk b).stuck = none) :
    (d.walk b).events.countP Event.isBlock = ((List.range b.blocks.length).map d.copies).sum := by
  have hevents : (Visit.traceAll (fun _ => true) (b.visits.flatMap d.amend)).events =
      (b.visits.flatMap d.amend).flatMap fun v => (v.trace fun _ => true).events :=
    Visit.events_trace_all h
  have hkept : (d.walk b).events.countP Event.isBlock =
      (Visit.traceAll (fun _ => true) (b.visits.flatMap d.amend)).events.countP Event.isBlock := by
    show ((Visit.traceAll _ _).events.filter d.records).countP Event.isBlock = _
    rw [List.countP_filter]
    refine List.countP_congr fun event _ => ?_
    cases event <;> simp [Event.isBlock, records]
  rw [hkept, hevents, List.flatMap_assoc, List.countP_flatMap, Body.visits, List.map_append,
    List.sum_append]
  have hblocks : (b.blocks.mapIdx Block.visit).map (List.countP Event.isBlock ∘ fun v =>
      (d.amend v).flatMap fun v => (v.trace fun _ => true).events) =
        (List.range b.blocks.length).map d.copies :=
    List.ext_getElem (by simp) fun i _ _ => by simp [count_blocks_amend]
  have hlocals : (b.locals.mapIdx LocalDecl.visit).map (List.countP Event.isBlock ∘ fun v =>
      (d.amend v).flatMap fun v => (v.trace fun _ => true).events) =
        List.replicate b.locals.length 0 :=
    List.ext_getElem (by simp) fun i _ _ => by
      rw [List.getElem_map, List.getElem_mapIdx, List.getElem_replicate]
      rfl
  rw [hblocks, hlocals, List.sum_replicate_nat, Nat.mul_zero, Nat.add_zero]

/-! ## Skipped and repeated blocks -/

/-- If a check passes, the blocks were met once each on the whole. -/
theorem sum_copies_of_check (h : d.check name b = .ok s) :
    ((List.range b.blocks.length).map d.copies).sum =
      ((List.range b.blocks.length).map fun _ => 1).sum := by
  obtain ⟨hstuck, hcount, -⟩ := counts_of_check h
  rw [← count_blocks_walk hstuck, hcount, List.map_const', List.sum_replicate, List.length_range]
  simp

variable {index : Nat}

/-- A check whose walk skips a block and repeats none does not pass. -/
theorem skipped_block_noticed (hindex : index < b.blocks.length)
    (hskip : d.skipBlock = some (index : Int)) (hrepeat : d.repeatBlock = none) :
    d.check name b ≠ .ok s := by
  intro h
  have hle : ∀ i ∈ List.range b.blocks.length, d.copies i ≤ 1 := by
    intro i _
    unfold copies
    rw [hrepeat]
    split <;> simp
  have hlt : d.copies index < 1 := by
    rw [copies, if_pos hskip]
    exact Nat.one_pos
  have hfewer := List.sum_lt_sum _ _ hle ⟨index, List.mem_range.mpr hindex, hlt⟩
  exact hfewer.ne (sum_copies_of_check h)

/-- A check whose walk repeats a block and skips none does not pass. -/
theorem repeated_block_noticed (hindex : index < b.blocks.length)
    (hrepeat : d.repeatBlock = some (index : Int)) (hskip : d.skipBlock = none) :
    d.check name b ≠ .ok s := by
  intro h
  have hle : ∀ i ∈ List.range b.blocks.length, 1 ≤ d.copies i := by
    intro i _
    unfold copies
    rw [hskip, if_neg nofun]
    split <;> simp
  have hlt : 1 < d.copies index := by
    rw [copies, hskip, if_neg nofun, if_pos hrepeat]
    exact Nat.one_lt_two
  have hmore := List.sum_lt_sum _ _ hle ⟨index, List.mem_range.mpr hindex, hlt⟩
  exact hmore.ne (sum_copies_of_check h).symm

end Distortion

end MirAudit
