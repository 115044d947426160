import MirAudit.Proofs.Body.WellFormed

/-!
# The order of a walk

`Body.listing` lists a body without walking it: the blocks in order, in each block the statements
and then the terminator, each at its location and with its fields in order, and at last the local
declarations. A walk meets exactly this, each part once, up to the first node of an unknown kind,
which it still meets before it is stopped. Read `Body.walk_eq` first.
-/

namespace MirAudit

/-! ## Fields -/

/-- A field of a node that a walk shows. It does not show names, flags, jumps and the values of
constants, and it shows a type as a whole. -/
inductive NodeField where
  | place (slot : Slot)
  | ty (type : Ty)
  | operand (value : Operand)
  | rvalue (value : Rvalue)

/-- The fields of an operand. -/
def Operand.fields : Operand → List NodeField
  | .copy slot | .move slot => [.place slot]
  | .const type _ => [.ty type]
  | .unknown _ => []

/-- The fields of a right-hand side in order. -/
def Rvalue.fields : Rvalue → List NodeField
  | .use value => [.operand value]
  | .binary _ lhs rhs => [.operand lhs, .operand rhs]
  | .ref slot _ => [.place slot]
  | .cast value type => [.operand value, .ty type]
  | .aggregate type values => .ty type :: values.map NodeField.operand
  | .unknown _ => []

/-- The fields of a statement in order. -/
def Statement.fields : Statement → List NodeField
  | .assign slot value => [.place slot, .rvalue value]
  | .storageLive slot | .storageDead slot => [.place slot]
  | .nop | .unknown _ => []

/-- The fields of a terminator in order. -/
def Terminator.fields : Terminator → List NodeField
  | .switch discr _ _ => [.operand discr]
  | .assert cond _ _ => [.operand cond]
  | .call func args dest _ => .operand func :: (args.map NodeField.operand ++ [.place dest])
  | .drop slot _ => [.place slot]
  | .goto _ | .return | .unreachable | .unknown _ => []

namespace NodeField

/-- The fields of a field. -/
def fields : NodeField → List NodeField
  | .operand value => value.fields
  | .rvalue value => value.fields
  | .place _ | .ty _ => []

/-- How many levels of fields there can be below a field. -/
def depth : NodeField → Nat
  | .place _ | .ty _ => 0
  | .operand _ => 1
  | .rvalue _ => 2

theorem depth_of_mem_operand {value : Operand} {inner : NodeField} (h : inner ∈ value.fields) :
    inner.depth = 0 := by
  cases value <;> simp only [Operand.fields, List.mem_singleton, List.not_mem_nil] at h <;>
    subst h <;> rfl

theorem depth_of_mem_rvalue {value : Rvalue} {inner : NodeField} (h : inner ∈ value.fields) :
    inner.depth ≤ 1 := by
  cases value <;>
    simp only [Rvalue.fields, List.mem_cons, List.mem_map, List.not_mem_nil, or_false] at h
  case use => simp [h, depth]
  case binary => rcases h with rfl | rfl <;> simp [depth]
  case ref => simp [h, depth]
  case cast => rcases h with rfl | rfl <;> simp [depth]
  case aggregate => rcases h with rfl | ⟨_, _, rfl⟩ <;> simp [depth]

/-- Fields are less deep than what they are fields of, so that a listing comes to an end. -/
theorem depth_lt {field inner : NodeField} (h : inner ∈ field.fields) :
    inner.depth < field.depth := by
  cases field with
  | place slot | ty type => cases h
  | operand value =>
      rw [depth_of_mem_operand h]
      exact Nat.zero_lt_one
  | rvalue value => exact Nat.lt_succ_of_le (depth_of_mem_rvalue h)

/-- A field, and below it its fields in order. -/
def listing (field : NodeField) : List NodeField :=
  field :: field.fields.attach.flatMap fun inner => inner.1.listing
termination_by field.depth
decreasing_by exact depth_lt inner.2

/-- What a walk meets at a field. -/
def event (loc : Location) : NodeField → Event
  | .place slot => .place loc slot
  | .ty type => .ty (some loc) type
  | .operand value => .operand loc value
  | .rvalue value => .rvalue loc value

/-- A listing is the field itself and the listings of its own fields. -/
theorem listing_eq (field : NodeField) :
    field.listing = field :: field.fields.flatMap listing := by
  rw [listing]
  simp

end NodeField

/-! ## Listings -/

/-- A statement at its location, and below it its fields in order. -/
def Statement.listing (loc : Location) (statement : Statement) : List Event :=
  .statement loc statement ::
    (statement.fields.flatMap NodeField.listing).map (NodeField.event loc)

/-- A terminator at its location, and below it its fields in order. -/
def Terminator.listing (loc : Location) (terminator : Terminator) : List Event :=
  .terminator loc terminator ::
    (terminator.fields.flatMap NodeField.listing).map (NodeField.event loc)

/-- A block, its statements in order, and its terminator behind them. -/
def Block.listing (index : Nat) (block : Block) : List Event :=
  .block index ::
    ((block.statements.mapIdx fun i statement => statement.listing ⟨index, i⟩).flatten
      ++ block.terminator.listing ⟨index, block.statements.length⟩)

/-- A local declaration and its type. -/
def LocalDecl.listing (slot : Nat) (decl : LocalDecl) : List Event :=
  [.localDecl slot decl, .ty none decl.ty]

/-- Everything in a body: its blocks in order, then its local declarations in order. -/
def Body.listing (b : Body) : List Event :=
  (b.blocks.mapIdx Block.listing).flatten ++ (b.locals.mapIdx LocalDecl.listing).flatten

/-- The node of an unknown kind that is met, if it is one. -/
def Event.unknown? : Event → Option UnknownNode
  | .statement _ (.unknown kind) => some ⟨.statement, kind⟩
  | .terminator _ (.unknown kind) => some ⟨.terminator, kind⟩
  | .rvalue _ (.unknown kind) => some ⟨.rvalue, kind⟩
  | .operand _ (.unknown kind) => some ⟨.operand, kind⟩
  | _ => none

/-! ## Walking a listing -/

namespace Trace

/-- The events up to the first one that is met at a node of an unknown kind, which is the last. -/
def through : List Event → Trace
  | [] => {}
  | event :: events =>
    match event.unknown? with
    | some node => ⟨[event], some node⟩
    | none => ⟨[event], none⟩ ++ through events

theorem append_nil (t : Trace) : t ++ {} = t := by
  show Trace.append t {} = t
  unfold Trace.append
  cases ht : t.stuck with
  | none => simp [← ht]
  | some node => rfl

theorem append_assoc (t u v : Trace) : t ++ u ++ v = t ++ (u ++ v) := by
  show Trace.append (Trace.append t u) v = Trace.append t (Trace.append u v)
  unfold Trace.append
  cases ht : t.stuck <;> cases hu : u.stuck <;> simp [ht, hu]

/-- Two listings are walked one after the other. -/
theorem through_append (events others : List Event) :
    through (events ++ others) = through events ++ through others := by
  induction events with
  | nil => rfl
  | cons event events ih =>
      simp only [List.cons_append, through]
      cases event.unknown? with
      | some node => rfl
      | none => rw [ih, append_assoc]

/-- A listing is walked to its end, or up to the first node of an unknown kind. -/
theorem through_cases (events : List Event) :
    ((∀ event ∈ events, event.unknown? = none) ∧ through events = ⟨events, none⟩)
    ∨ ∃ before event after node, events = before ++ event :: after
        ∧ (∀ other ∈ before, other.unknown? = none) ∧ event.unknown? = some node
        ∧ through events = ⟨before ++ [event], some node⟩ := by
  induction events with
  | nil => exact Or.inl ⟨by simp, rfl⟩
  | cons event events ih =>
      rcases hevent : event.unknown? with _ | node
      · rcases ih with ⟨hknown, ih⟩ | ⟨before, first, after, node, rfl, hbefore, hfirst, ih⟩
        · refine Or.inl ⟨by simpa [hevent] using hknown, ?_⟩
          simp only [through, hevent, ih]
          rfl
        · refine Or.inr ⟨event :: before, first, after, node, rfl, ?_, hfirst, ?_⟩
          · simpa [hevent] using hbefore
          · simp only [through, hevent, ih]
            rfl
      · exact Or.inr ⟨[], event, events, node, rfl, by simp, hevent, by simp [through, hevent]⟩

end Trace

/-! ## Walking a body -/

/-- The visit of a field. -/
def NodeField.visit (loc : Location) : NodeField → Visit
  | .place slot => visitPlace loc slot
  | .ty type => visitTy (some loc) type
  | .operand value => value.visit loc
  | .rvalue value => value.visit loc

/-- The visit of a node with its fields; the walk ends at a node of an unknown kind. -/
def Visit.ofFields (loc : Location) (event : Event) (fields : List NodeField) : Visit :=
  .node event <|
    match event.unknown? with
    | some what => [.unknown what]
    | none => fields.map (NodeField.visit loc)

/-- A visit of an operand reports it and goes on to its fields. -/
theorem Operand.visit_eq (loc : Location) (value : Operand) :
    value.visit loc = .ofFields loc (.operand loc value) value.fields := by
  cases value <;> rfl

/-- A visit of an rvalue reports it and goes on to its fields. -/
theorem Rvalue.visit_eq (loc : Location) (value : Rvalue) :
    value.visit loc = .ofFields loc (.rvalue loc value) value.fields := by
  cases value with
  | aggregate type values =>
      simp [Rvalue.visit, Visit.ofFields, Event.unknown?, Rvalue.fields, NodeField.visit]
  | _ => rfl

/-- A visit of a field reports it and goes on to its own fields. -/
theorem NodeField.visit_eq (loc : Location) (field : NodeField) :
    field.visit loc = .ofFields loc (field.event loc) field.fields := by
  cases field with
  | place slot | ty type => rfl
  | operand value => exact value.visit_eq loc
  | rvalue value => exact value.visit_eq loc

/-- A visit of a statement reports it and goes on to its fields. -/
theorem Statement.visit_eq (loc : Location) (statement : Statement) :
    statement.visit loc = .ofFields loc (.statement loc statement) statement.fields := by
  cases statement <;> rfl

/-- A visit of a terminator reports it and goes on to its fields. -/
theorem Terminator.visit_eq (loc : Location) (terminator : Terminator) :
    terminator.visit loc = .ofFields loc (.terminator loc terminator) terminator.fields := by
  cases terminator with
  | call func args dest target =>
      simp [Terminator.visit, Visit.ofFields, Event.unknown?, Terminator.fields, NodeField.visit]
  | _ => rfl

namespace Visit

/-- Visits that are walked as their listings say are walked one after another. -/
theorem trace_all_through {α : Type} {visit : α → Visit} {listing : α → List Event} {nodes : List α}
    (h : ∀ node ∈ nodes, ((visit node).trace fun _ => true) = Trace.through (listing node)) :
    traceAll (fun _ => true) (nodes.map visit) = Trace.through (nodes.flatMap listing) := by
  induction nodes with
  | nil => rfl
  | cons node nodes ih =>
      rw [List.map_cons, traceAll, h node List.mem_cons_self,
        ih fun other hother => h other (List.mem_cons_of_mem node hother), List.flatMap_cons,
        Trace.through_append]

/-- The same for visits that depend on their positions. -/
theorem trace_all_through_idx {α : Type} {visit : Nat → α → Visit}
    {listing : Nat → α → List Event} (nodes : List α)
    (h : ∀ i node, ((visit i node).trace fun _ => true) = Trace.through (listing i node)) :
    traceAll (fun _ => true) (nodes.mapIdx visit)
      = Trace.through (nodes.mapIdx listing).flatten := by
  rw [List.mapIdx_eq_zipIdx_map, List.mapIdx_eq_zipIdx_map, ← List.flatMap_def]
  exact trace_all_through fun node _ => h node.2 node.1

/-- Visits one after another leave their traces one after another. -/
theorem trace_all_append (visits others : List Visit) :
    traceAll (fun _ => true) (visits ++ others)
      = traceAll (fun _ => true) visits ++ traceAll (fun _ => true) others := by
  induction visits with
  | nil => rfl
  | cons visit visits ih => rw [List.cons_append, traceAll, ih, traceAll, Trace.append_assoc]

/-- A node of a known kind is walked as it is listed if what lies inside it is. -/
theorem trace_known {event : Event} {inner : List Visit} {below : List Event}
    (hknown : event.unknown? = none)
    (h : traceAll (fun _ => true) inner = Trace.through below) :
    ((Visit.node event inner).trace fun _ => true) = Trace.through (event :: below) := by
  rw [trace, if_pos rfl, h]
  simp only [Trace.through, hknown]

/-- A node is walked as it is listed if its fields are. -/
theorem trace_of_fields {loc : Location} {event : Event} {fields : List NodeField}
    (h : ∀ field ∈ fields,
      ((field.visit loc).trace fun _ => true)
        = Trace.through (field.listing.map (NodeField.event loc))) :
    ((ofFields loc event fields).trace fun _ => true)
      = Trace.through (event :: (fields.flatMap NodeField.listing).map (NodeField.event loc)) := by
  unfold ofFields
  cases hevent : event.unknown? with
  | none =>
      refine trace_known hevent ?_
      rw [List.map_flatMap]
      exact trace_all_through h
  | some what =>
      -- nothing is listed behind a node of an unknown kind
      simp only [Trace.through, hevent]
      rfl

end Visit

/-- A field is walked as it is listed. -/
theorem NodeField.trace_visit (loc : Location) (field : NodeField) :
    ((field.visit loc).trace fun _ => true)
      = Trace.through (field.listing.map (NodeField.event loc)) := by
  rw [field.visit_eq, field.listing_eq]
  exact Visit.trace_of_fields fun inner _ => inner.trace_visit loc
termination_by field.depth
decreasing_by exact depth_lt ‹_›

/-- What a walk meets in a statement is its listing, up to the first unknown node. -/
theorem Statement.trace_visit (loc : Location) (statement : Statement) :
    ((statement.visit loc).trace fun _ => true) = Trace.through (statement.listing loc) := by
  rw [statement.visit_eq]
  exact Visit.trace_of_fields fun field _ => field.trace_visit loc

/-- What a walk meets in a terminator is its listing, up to the first unknown node. -/
theorem Terminator.trace_visit (loc : Location) (terminator : Terminator) :
    ((terminator.visit loc).trace fun _ => true) = Trace.through (terminator.listing loc) := by
  rw [terminator.visit_eq]
  exact Visit.trace_of_fields fun field _ => field.trace_visit loc

/-- What a walk meets in a block is its listing, up to the first unknown node. -/
theorem Block.trace_visit (index : Nat) (block : Block) :
    ((block.visit index).trace fun _ => true) = Trace.through (block.listing index) := by
  refine Visit.trace_known rfl ?_
  rw [Visit.trace_all_append, Trace.through_append]
  congr 1
  · exact Visit.trace_all_through_idx _ fun i statement => statement.trace_visit ⟨index, i⟩
  · rw [← block.terminator.trace_visit, Visit.traceAll, Visit.traceAll, Trace.append_nil]

/-- What a walk meets in a local is its listing. -/
theorem LocalDecl.trace_visit (slot : Nat) (decl : LocalDecl) :
    ((decl.visit slot).trace fun _ => true) = Trace.through (decl.listing slot) :=
  rfl

/-- A body is walked as it is listed, up to the first node of an unknown kind. -/
theorem Body.walk_eq (b : Body) : b.walk = Trace.through b.listing := by
  unfold Body.walk Body.visits Body.listing
  rw [Visit.trace_all_append, Trace.through_append]
  congr 1
  · exact Visit.trace_all_through_idx _ Block.trace_visit
  · exact Visit.trace_all_through_idx _ LocalDecl.trace_visit

/-! ## Nodes of unknown kinds -/

def Operand.isUnknown : Operand → Bool
  | .unknown _ => true
  | _ => false

def Rvalue.isUnknown : Rvalue → Bool
  | .unknown _ => true
  | _ => false

def Statement.isUnknown : Statement → Bool
  | .unknown _ => true
  | _ => false

def Terminator.isUnknown : Terminator → Bool
  | .unknown _ => true
  | _ => false

/-- The right-hand sides of a statement. -/
def Statement.rvalues : Statement → List Rvalue
  | .assign _ value => [value]
  | _ => []

/-- A statement is of an unknown kind, or its right-hand side or an operand of it is. -/
def Statement.hasUnknown (statement : Statement) : Bool :=
  statement.isUnknown || statement.rvalues.any Rvalue.isUnknown
    || statement.operands.any Operand.isUnknown

/-- A terminator is of an unknown kind, or an operand of it is. -/
def Terminator.hasUnknown (terminator : Terminator) : Bool :=
  terminator.isUnknown || terminator.operands.any Operand.isUnknown

/-- A body has a statement, a terminator, a right-hand side or an operand of an unknown kind. -/
def Body.hasUnknown (b : Body) : Bool :=
  b.blocks.any fun block =>
    block.statements.any Statement.hasUnknown || block.terminator.hasUnknown

/-- Something is met at a node of an unknown kind. -/
def Event.isUnknown (event : Event) : Bool :=
  event.unknown?.isSome

def NodeField.isUnknown : NodeField → Bool
  | .operand value => value.isUnknown
  | .rvalue value => value.isUnknown
  | .place _ | .ty _ => false

theorem NodeField.event_is_unknown (loc : Location) (field : NodeField) :
    (field.event loc).isUnknown = field.isUnknown := by
  cases field with
  | place slot | ty type => rfl
  | operand value | rvalue value => cases value <;> rfl

theorem NodeField.any_map_event (loc : Location) (fields : List NodeField) :
    (fields.map (NodeField.event loc)).any Event.isUnknown = fields.any NodeField.isUnknown := by
  simp only [List.any_map, Function.comp_def, NodeField.event_is_unknown]

namespace NodeField

/-- Whether a listing holds an unknown node is seen field by field. -/
theorem any_listing (field : NodeField) :
    field.listing.any isUnknown
      = (field.isUnknown || field.fields.any fun inner => inner.listing.any isUnknown) := by
  rw [listing_eq, List.any_cons, List.any_flatMap]

theorem any_place (slot : Slot) : (place slot).listing.any isUnknown = false := by
  rw [any_listing]
  rfl

theorem any_ty (type : Ty) : (ty type).listing.any isUnknown = false := by
  rw [any_listing]
  rfl

theorem any_operand (value : Operand) :
    (operand value).listing.any isUnknown = value.isUnknown := by
  rw [any_listing]
  cases value <;> simp [fields, Operand.fields, any_place, any_ty, isUnknown]

theorem any_rvalue (value : Rvalue) :
    (rvalue value).listing.any isUnknown
      = (value.isUnknown || value.operands.any Operand.isUnknown) := by
  rw [any_listing]
  cases value <;>
    simp [fields, Rvalue.fields, any_place, any_ty, any_operand, isUnknown, Rvalue.operands,
      Rvalue.isUnknown, Function.comp_def]

end NodeField

/-- An unknown node in the listing of a statement is one in the statement. -/
theorem Statement.any_listing (loc : Location) (statement : Statement) :
    (statement.listing loc).any Event.isUnknown = statement.hasUnknown := by
  rw [listing, List.any_cons, NodeField.any_map_event, List.any_flatMap]
  cases statement <;>
    simp [fields, hasUnknown, isUnknown, rvalues, operands, NodeField.any_place,
      NodeField.any_rvalue, Event.isUnknown, Event.unknown?]

/-- An unknown node in the listing of a terminator is one in the terminator. -/
theorem Terminator.any_listing (loc : Location) (terminator : Terminator) :
    (terminator.listing loc).any Event.isUnknown = terminator.hasUnknown := by
  rw [listing, List.any_cons, NodeField.any_map_event, List.any_flatMap]
  cases terminator <;>
    simp [fields, hasUnknown, isUnknown, operands, NodeField.any_place, NodeField.any_operand,
      Event.isUnknown, Event.unknown?, Function.comp_def]

/-- Whether a listing holds something does not depend on positions if it does not for a part. -/
theorem any_flatten_map_idx {α : Type} {listing : Nat → α → List Event} {found : α → Bool}
    (h : ∀ i node, (listing i node).any Event.isUnknown = found node) (nodes : List α) :
    (nodes.mapIdx listing).flatten.any Event.isUnknown = nodes.any found := by
  calc (nodes.mapIdx listing).flatten.any Event.isUnknown
      = nodes.zipIdx.any fun node => found node.1 := by
        rw [List.any_flatten, List.mapIdx_eq_zipIdx_map, List.any_map]
        simp only [Function.comp_def, h]
    _ = (nodes.zipIdx.map Prod.fst).any found := List.any_map.symm
    _ = nodes.any found := by rw [List.zipIdx_map_fst]

/-- An unknown node in the listing of a body is one in the body. -/
theorem Body.any_listing (b : Body) : b.listing.any Event.isUnknown = b.hasUnknown := by
  have hblock : ∀ (index : Nat) (block : Block), (block.listing index).any Event.isUnknown
      = (block.statements.any Statement.hasUnknown || block.terminator.hasUnknown) := by
    intro index block
    rw [Block.listing, List.any_cons, List.any_append, Terminator.any_listing,
      any_flatten_map_idx fun i statement => statement.any_listing ⟨index, i⟩]
    rfl
  have hlocal : ∀ (slot : Nat) (decl : LocalDecl),
      (decl.listing slot).any Event.isUnknown = false := fun _ _ => rfl
  rw [listing, List.any_append, any_flatten_map_idx hblock, any_flatten_map_idx hlocal, hasUnknown]
  simp

/-- A walk of a body of whatever nodes meets all that the body lists, each part once and in
order. If a node of the body is of an unknown kind, then the walk fails at the first one that is
listed, which is the last thing it meets. -/
theorem Body.walk_exact (b : Body) :
    (b.hasUnknown = false ∧ b.walk.events = b.listing ∧ b.walk.complete = .ok b.listing)
    ∨ (b.hasUnknown = true ∧ ∃ before event after node, b.listing = before ++ event :: after
        ∧ (∀ other ∈ before, other.unknown? = none) ∧ event.unknown? = some node
        ∧ b.walk.events = before ++ [event]
        ∧ b.walk.complete = .error (.unknownNode node)) := by
  rw [← b.any_listing, b.walk_eq]
  rcases Trace.through_cases b.listing with
    ⟨hknown, heq⟩ | ⟨before, event, after, node, hlisting, hbefore, hevent, heq⟩
  · refine Or.inl ⟨?_, by rw [heq], by rw [heq]; rfl⟩
    rw [List.any_eq_false]
    intro event hmem
    simp [Event.isUnknown, hknown event hmem]
  · refine Or.inr ⟨?_, before, event, after, node, hlisting, hbefore, hevent, ?_, ?_⟩
    · rw [List.any_eq_true, hlisting]
      exact ⟨event, by simp, by simp [Event.isUnknown, hevent]⟩
    · rw [heq]
    · rw [heq]; rfl

example :
    let value : Operand := .unknown "Deref"
    ({ blocks := [⟨[.nop, .assign 0 (.use value)], .return⟩], locals := [⟨.unit, true⟩] } :
        Body).walk =
      ⟨[.block 0, .statement ⟨0, 0⟩ .nop, .statement ⟨0, 1⟩ (.assign 0 (.use value)),
        .place ⟨0, 1⟩ 0, .rvalue ⟨0, 1⟩ (.use value), .operand ⟨0, 1⟩ value],
        some ⟨.operand, "Deref"⟩⟩ := by
  decide +kernel

end MirAudit
