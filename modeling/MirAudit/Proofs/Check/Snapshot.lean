import MirAudit.Proofs.Body.Walk
import MirAudit.Proofs.Check.Comparison

/-!
# What a snapshot records

The snapshot of a walk that was not stopped holds the statements of each block, the terminators and
the types of the declarations, so it agrees with the body. Read `Body.check_of_walk` first.
-/

namespace MirAudit

/-- The type at an event, if the event is one of a type. -/
def Event.ty? : Event → Option Ty
  | .ty _ type => some type
  | _ => none

/-- An element that comes last is kept unless it came before. -/
theorem erase_dups_concat {α : Type} [DecidableEq α] (as : List α) (a : α) :
    (as ++ [a]).eraseDups = if a ∈ as.eraseDups then as.eraseDups else as.eraseDups ++ [a] := by
  rw [List.eraseDups_append]
  by_cases ha : a ∈ as
  · simp [List.removeAll, ha]
  · simp [List.removeAll, List.eraseDups_cons, ha]

theorem filter_map_cons_eq {α β : Type} (f : α → Option β) (a : α) (as : List α) :
    (a :: as).filterMap f = (f a).toList ++ as.filterMap f := by
  cases ha : f a with
  | none => rw [List.filterMap_cons_none ha, Option.toList_none, List.nil_append]
  | some b => rw [List.filterMap_cons_some ha, Option.toList_some, List.singleton_append]

namespace Snapshot

/-! ## Recording events -/

/-- Events below a statement or a terminator record only types. -/
theorem foldl_inner {events : List Event} (h : ∀ event ∈ events, event.IsInner) (s : Snapshot) :
    (events.foldl observe s).statements = s.statements ∧
      (events.foldl observe s).terminators = s.terminators := by
  induction events generalizing s with
  | nil => exact ⟨rfl, rfl⟩
  | cons event events ih =>
      obtain ⟨hstatements, hterminators⟩ :=
        ih (fun other hother => h other (List.mem_cons_of_mem event hother)) (s.observe event)
      have hinner := h event List.mem_cons_self
      rw [List.foldl_cons, hstatements, hterminators]
      cases event <;> first | exact ⟨rfl, rfl⟩ | exact hinner.elim

theorem extend_last_append {α : Type} (a : α) (lists : List (List α)) (last : List α) :
    extendLast a (lists ++ [last]) = lists ++ [last ++ [a]] := by
  induction lists with
  | nil => rfl
  | cons list lists ih =>
      rw [List.cons_append, List.cons_append, ← ih]
      cases h : lists ++ [last] with
      | nil => simp at h
      | cons next rest => rfl

/-- The visits of statements are recorded in the last list. -/
theorem foldl_statements (statements : List Statement) (place : Nat → Location) (s : Snapshot)
    (lists : List (List Statement)) (last : List Statement) (h : s.statements = lists ++ [last]) :
    let events := (statements.mapIdx fun i statement => statement.visit (place i)).flatMap fun v =>
      (v.trace fun _ => true).events
    (events.foldl observe s).statements = lists ++ [last ++ statements] ∧
      (events.foldl observe s).terminators = s.terminators := by
  induction statements generalizing place s last with
  | nil => simpa using h
  | cons statement statements ih =>
      obtain ⟨below, hbelow, hinner⟩ := Statement.events_visit (place 0) statement
      obtain ⟨hstatements, hterminators⟩ :=
        foldl_inner hinner (s.observe (.statement (place 0) statement))
      have hlast : (below.foldl observe (s.observe (.statement (place 0) statement))).statements =
          lists ++ [last ++ [statement]] := by
        rw [hstatements, ← extend_last_append, ← h]
        rfl
      obtain ⟨hrest, hsame⟩ := ih (fun i => place (i + 1)) _ _ hlast
      simp only [List.mapIdx_cons, List.flatMap_cons, List.foldl_append, hbelow, List.foldl_cons]
      refine ⟨?_, hsame.trans hterminators⟩
      rw [hrest, List.append_assoc]
      rfl

/-- The visit of a block records its statements and its terminator. -/
theorem foldl_block {index : Nat} {block : Block} (s : Snapshot)
    (h : ((block.visit index).trace fun _ => true).stuck = none) :
    let events := ((block.visit index).trace fun _ => true).events
    (events.foldl observe s).statements = s.statements ++ [block.statements] ∧
      (events.foldl observe s).terminators = s.terminators ++ [block.terminator] := by
  obtain ⟨below, hbelow, hinner⟩ :=
    Terminator.events_visit ⟨index, block.statements.length⟩ block.terminator
  obtain ⟨hstatements, hterminators⟩ := foldl_statements block.statements (fun i => ⟨index, i⟩)
    (s.observe (.block index)) s.statements [] rfl
  dsimp only
  rw [Block.events_visit h, hbelow, List.foldl_append, List.foldl_cons, List.foldl_cons]
  obtain ⟨hbefore, hbehind⟩ := foldl_inner hinner _
  refine ⟨hbefore.trans ?_, hbehind.trans ?_⟩
  · exact hstatements
  · exact congrArg (· ++ [block.terminator]) hterminators

/-- The visits of blocks record their statements and their terminators in order. -/
theorem foldl_blocks (blocks : List Block) (number : Nat → Nat) (s : Snapshot)
    (h : ∀ v ∈ blocks.mapIdx (fun i block => block.visit (number i)),
      (v.trace fun _ => true).stuck = none) :
    let events := (blocks.mapIdx fun i block => block.visit (number i)).flatMap fun v =>
      (v.trace fun _ => true).events
    (events.foldl observe s).statements = s.statements ++ blocks.map Block.statements ∧
      (events.foldl observe s).terminators = s.terminators ++ blocks.map Block.terminator := by
  induction blocks generalizing number s with
  | nil => simp
  | cons block blocks ih =>
      rw [List.mapIdx_cons] at h ⊢
      obtain ⟨hstatements, hterminators⟩ := foldl_block s (h _ List.mem_cons_self)
      obtain ⟨hrest, hbehind⟩ := ih (fun i => number (i + 1))
        (((block.visit (number 0)).trace fun _ => true).events.foldl observe s)
        fun v hv => h v (List.mem_cons_of_mem _ hv)
      dsimp only
      rw [List.flatMap_cons, List.foldl_append, hrest, hbehind, hstatements, hterminators]
      simp

/-- One more event records its type, unless that is recorded already. -/
theorem types_observe {s : Snapshot} {met : List Ty} (event : Event)
    (h : s.types = met.eraseDups) :
    (s.observe event).types = (met ++ event.ty?.toList).eraseDups := by
  cases event with
  | ty loc other =>
      show (if other ∈ s.types then s.types else s.types ++ [other]) = (met ++ [other]).eraseDups
      rw [erase_dups_concat, h]
  | block | statement | terminator | rvalue | operand | place | localDecl =>
      show s.types = (met ++ []).eraseDups
      rw [h, List.append_nil]

/-- The types that are recorded are those of the events, each where it comes first. -/
theorem types_of_events (events : List Event) :
    (ofEvents events).types = (events.filterMap Event.ty?).eraseDups := by
  have hfold : ∀ (s : Snapshot) (met : List Ty), s.types = met.eraseDups →
      (events.foldl observe s).types = (met ++ events.filterMap Event.ty?).eraseDups := by
    induction events with
    | nil => simp
    | cons event events ih =>
        intro s met h
        rw [List.foldl_cons, ih _ _ (types_observe event h), List.append_assoc,
          ← filter_map_cons_eq]
  exact hfold {} [] rfl

/-- The visits of declarations record only types. -/
theorem foldl_locals (locals : List LocalDecl) (number : Nat → Nat) (s : Snapshot) :
    let events := (locals.mapIdx fun i decl => decl.visit (number i)).flatMap fun v =>
      (v.trace fun _ => true).events
    (events.foldl observe s).statements = s.statements ∧
      (events.foldl observe s).terminators = s.terminators := by
  induction locals generalizing number s with
  | nil => exact ⟨rfl, rfl⟩
  | cons decl locals ih =>
      simp only [List.mapIdx_cons, List.flatMap_cons, List.foldl_append, LocalDecl.events_visit]
      exact ih (fun i => number (i + 1)) _

end Snapshot

/-- What the snapshot of a walk that was not stopped holds. -/
theorem Body.snapshot_walk {b : Body} (h : b.walk.stuck = none) :
    (Snapshot.ofEvents b.walk.events).statements = b.blocks.map Block.statements ∧
      (Snapshot.ofEvents b.walk.events).terminators = b.blocks.map Block.terminator ∧
      ∀ decl ∈ b.locals, decl.ty ∈ (Snapshot.ofEvents b.walk.events).types := by
  have hwalk := Visit.stuck_trace_all.mp h
  have hevents : b.walk.events = _ := Visit.events_trace_all h
  have htypes : ∀ decl ∈ b.locals, decl.ty ∈ (Snapshot.ofEvents b.walk.events).types := by
    intro decl hdecl
    obtain ⟨slot, hslot, rfl⟩ := List.mem_iff_getElem.mp hdecl
    have hvisit : b.locals[slot].visit slot ∈ b.visits :=
      List.mem_append_right _ (List.mem_mapIdx.mpr ⟨slot, hslot, rfl⟩)
    rw [Snapshot.types_of_events, List.mem_eraseDups, List.mem_filterMap, hevents]
    refine ⟨.ty none b.locals[slot].ty, List.mem_flatMap.mpr ⟨_, hvisit, ?_⟩, rfl⟩
    rw [LocalDecl.events_visit]
    simp
  rw [Snapshot.ofEvents, hevents, Body.visits, List.flatMap_append, List.foldl_append] at htypes ⊢
  obtain ⟨hstatements, hterminators⟩ := Snapshot.foldl_blocks b.blocks id {} fun v hv =>
    hwalk v (List.mem_append_left _ hv)
  obtain ⟨hbefore, hbehind⟩ := Snapshot.foldl_locals b.locals id
    ((b.blocks.mapIdx fun i block => block.visit (id i)).flatMap (fun v =>
      (v.trace fun _ => true).events) |>.foldl Snapshot.observe {})
  exact ⟨hbefore.trans hstatements, hbehind.trans hterminators, htypes⟩

/-! ## Comparing a body with its own walk -/

/-- The snapshot of a walk that was not stopped is faithful. -/
theorem Body.faithful_walk {b : Body} (h : b.walk.stuck = none) :
    (Snapshot.ofEvents b.walk.events).Faithful b := by
  obtain ⟨hstatements, hterminators, htypes⟩ := Body.snapshot_walk h
  refine ⟨?_, ?_, htypes⟩
  · rw [hstatements, Body.canonical, List.map_map, List.map_map]
    rfl
  · rw [hterminators, Body.canonical, List.map_map, List.map_map]
    rfl

/-- A walk that is not stopped reproduces the body. -/
theorem Body.check_of_walk {b : Body} (h : b.walk.stuck = none) (name : String) :
    b.check name = .ok (Snapshot.ofEvents b.walk.events) := by
  have hcompare := Snapshot.compare_of_faithful name (Body.faithful_walk h)
  rw [Body.check, checkTrace, Trace.complete, h]
  show (liftFault ((Snapshot.ofEvents b.walk.events).compare name b) >>= _) = _
  rw [hcompare]
  rfl

end MirAudit
