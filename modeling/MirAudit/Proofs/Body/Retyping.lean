import Mathlib.Data.List.Forall2
import MirAudit.Proofs.Body.Listing
import MirAudit.Proofs.Body.Types

/-!
# Substitution and walks

Substitution in a body and a walk of the body are written separately, and they agree on where the
types are. Whatever is met in the substituted body is what is met in the body, at the same place,
with the same shape and with each of its types substituted; the operands have the substituted
types. Read `Body.Retyped` and `Body.retyped_subst` first.
-/

namespace MirAudit

/-! ## Shapes

The shape of a node is all of it but its types: its slots, names, flags, jumps and constants. -/

/-- The operand with its type replaced by the unit type. -/
def Operand.shape : Operand → Operand
  | .copy slot => .copy slot
  | .move slot => .move slot
  | .const _ value => .const .unit value
  | .unknown kind => .unknown kind

/-- The right-hand side with its types replaced by the unit type. -/
def Rvalue.shape : Rvalue → Rvalue
  | .use operand => .use operand.shape
  | .binary op lhs rhs => .binary op lhs.shape rhs.shape
  | .ref slot mutable => .ref slot mutable
  | .cast operand _ => .cast operand.shape .unit
  | .aggregate _ operands => .aggregate .unit (operands.map Operand.shape)
  | .unknown kind => .unknown kind

/-- The statement with its types replaced by the unit type. -/
def Statement.shape : Statement → Statement
  | .assign slot rvalue => .assign slot rvalue.shape
  | .storageLive slot => .storageLive slot
  | .storageDead slot => .storageDead slot
  | .nop => .nop
  | .unknown kind => .unknown kind

/-- The terminator with its types replaced by the unit type. -/
def Terminator.shape : Terminator → Terminator
  | .goto target => .goto target
  | .switch discr targets otherwise => .switch discr.shape targets otherwise
  | .return => .return
  | .unreachable => .unreachable
  | .call func args dest target => .call func.shape (args.map Operand.shape) dest target
  | .drop slot target => .drop slot target
  | .assert cond expected target => .assert cond.shape expected target
  | .unknown kind => .unknown kind

/-! ## The same up to types -/

/-- What is met is the same but that each type in it is put through `f`. -/
inductive Event.Retyped (f : Ty → Ty) : Event → Event → Prop where
  | block (index : Nat) : Retyped f (.block index) (.block index)
  | statement (loc : Location) {old new : Statement} :
      new.shape = old.shape → new.types = old.types.map f →
      Retyped f (.statement loc old) (.statement loc new)
  | terminator (loc : Location) {old new : Terminator} :
      new.shape = old.shape → new.types = old.types.map f →
      Retyped f (.terminator loc old) (.terminator loc new)
  | rvalue (loc : Location) {old new : Rvalue} :
      new.shape = old.shape → new.types = old.types.map f →
      Retyped f (.rvalue loc old) (.rvalue loc new)
  | operand (loc : Location) {old new : Operand} :
      new.shape = old.shape → new.types = old.types.map f →
      Retyped f (.operand loc old) (.operand loc new)
  | place (loc : Location) (slot : Slot) : Retyped f (.place loc slot) (.place loc slot)
  | localDecl (slot : Nat) (old : LocalDecl) :
      Retyped f (.localDecl slot old) (.localDecl slot { old with ty := f old.ty })
  | ty (loc : Option Location) (type : Ty) : Retyped f (.ty loc type) (.ty loc (f type))

/-- The slot of a place. -/
def Event.slot? : Event → Option Slot
  | .place _ slot => some slot
  | _ => none

/-- The value of a constant. -/
def Event.value? : Event → Option Const
  | .operand _ (.const _ value) => some value
  | _ => none

/-- One body is the other but that each type is put through `f`, and a walk finds it so. -/
structure Body.Retyped (f : Ty → Ty) (old new : Body) : Prop where
  /-- The walks meet the same in the same order, up to types. -/
  walk : List.Forall₂ (Event.Retyped f) old.walk.events new.walk.events
  /-- The walks fail at the same node of an unknown kind, if at any. -/
  stuck : new.walk.stuck = old.walk.stuck
  /-- What stands behind such a node is the same up to types, too. -/
  listing : List.Forall₂ (Event.Retyped f) old.listing new.listing
  block_count : new.blocks.length = old.blocks.length
  local_count : new.locals.length = old.locals.length
  arg_count : new.argCount = old.argCount
  mutability : new.locals.map LocalDecl.mutable = old.locals.map LocalDecl.mutable
  successors : new.blocks.map (·.terminator.successors) = old.blocks.map (·.terminator.successors)
  /-- The slots of all places, in walk order. -/
  slots : new.listing.filterMap Event.slot? = old.listing.filterMap Event.slot?
  /-- The values of all constants, in walk order. -/
  values : new.listing.filterMap Event.value? = old.listing.filterMap Event.value?
  /-- A function item is an item of the same function at the same place. -/
  items : ∀ (i : Nat) (loc : Location) (function : DefId) (args : List Ty) (value : Const),
    old.listing[i]? = some (.operand loc (.const (.fnDef function args) value)) →
    new.listing[i]? = some (.operand loc (.const (.fnDef function (args.map f)) value))

/-! ## Substitution keeps shapes -/

variable (s : Subst)

@[simp] theorem Operand.shape_subst (operand : Operand) :
    (operand.subst s).shape = operand.shape := by
  cases operand <;> rfl

@[simp] theorem Rvalue.shape_subst (rvalue : Rvalue) : (rvalue.subst s).shape = rvalue.shape := by
  cases rvalue <;> simp [subst, shape]

@[simp] theorem Statement.shape_subst (statement : Statement) :
    (statement.subst s).shape = statement.shape := by
  cases statement <;> simp [subst, shape]

@[simp] theorem Terminator.shape_subst (terminator : Terminator) :
    (terminator.subst s).shape = terminator.shape := by
  cases terminator <;> simp [subst, shape]

/-- What is met with its types substituted. -/
def Event.subst : Event → Event
  | .block index => .block index
  | .statement loc node => .statement loc (node.subst s)
  | .terminator loc node => .terminator loc (node.subst s)
  | .rvalue loc value => .rvalue loc (value.subst s)
  | .operand loc value => .operand loc (value.subst s)
  | .place loc slot => .place loc slot
  | .localDecl slot decl => .localDecl slot (decl.subst s)
  | .ty loc type => .ty loc (type.subst s)

/-- Substitution changes the types of an event and nothing else. -/
theorem Event.subst_retyped (event : Event) : event.Retyped (Ty.subst s) (event.subst s) := by
  cases event with
  | block index => exact .block index
  | statement loc statement =>
      exact .statement loc (statement.shape_subst s) (statement.types_subst s)
  | terminator loc terminator =>
      exact .terminator loc (terminator.shape_subst s) (terminator.types_subst s)
  | rvalue loc rvalue => exact .rvalue loc (rvalue.shape_subst s) (rvalue.types_subst s)
  | operand loc operand => exact .operand loc (operand.shape_subst s) (operand.types_subst s)
  | place loc slot => exact .place loc slot
  | localDecl slot decl => exact .localDecl slot decl
  | ty loc type => exact .ty loc type

/-- Substitution changes the types of a listing and nothing else. -/
theorem forall_retyped_subst (events : List Event) :
    List.Forall₂ (Event.Retyped (Ty.subst s)) events (events.map (Event.subst s)) :=
  List.forall₂_map_right_iff.mpr (List.forall₂_same.mpr fun event _ => event.subst_retyped s)

theorem Event.unknown_subst (event : Event) : (event.subst s).unknown? = event.unknown? := by
  cases event with
  | statement loc statement => cases statement <;> rfl
  | terminator loc terminator => cases terminator <;> rfl
  | rvalue loc rvalue => cases rvalue <;> rfl
  | operand loc operand => cases operand <;> rfl
  | block | place | localDecl | ty => rfl

theorem Event.slot_subst (event : Event) : (event.subst s).slot? = event.slot? := by
  cases event <;> rfl

theorem Event.value_subst (event : Event) : (event.subst s).value? = event.value? := by
  cases event with
  | operand loc operand => cases operand <;> rfl
  | block | statement | terminator | rvalue | place | localDecl | ty => rfl

/-! ## Listings of substituted bodies -/

/-- The field with its types substituted. -/
def NodeField.subst : NodeField → NodeField
  | .place slot => .place slot
  | .ty type => .ty (type.subst s)
  | .operand value => .operand (value.subst s)
  | .rvalue value => .rvalue (value.subst s)

theorem Operand.fields_subst (value : Operand) :
    (value.subst s).fields = value.fields.map (NodeField.subst s) := by
  cases value <;> rfl

theorem Rvalue.fields_subst (value : Rvalue) :
    (value.subst s).fields = value.fields.map (NodeField.subst s) := by
  cases value <;> simp [subst, fields, NodeField.subst]

theorem Statement.fields_subst (statement : Statement) :
    (statement.subst s).fields = statement.fields.map (NodeField.subst s) := by
  cases statement <;> rfl

theorem Terminator.fields_subst (terminator : Terminator) :
    (terminator.subst s).fields = terminator.fields.map (NodeField.subst s) := by
  cases terminator <;> simp [subst, fields, NodeField.subst]

namespace NodeField

/-- The fields of what is substituted are the fields, substituted. -/
theorem fields_subst (field : NodeField) :
    (field.subst s).fields = field.fields.map (NodeField.subst s) := by
  cases field with
  | place slot | ty type => rfl
  | operand value => exact value.fields_subst s
  | rvalue value => exact value.fields_subst s

/-- The event of a field that is substituted is the event, substituted. -/
theorem event_subst (loc : Location) (field : NodeField) :
    (field.subst s).event loc = (field.event loc).subst s := by
  cases field <;> rfl

/-- The fields below a substituted field are those below the field, substituted. -/
theorem listing_subst (field : NodeField) :
    (field.subst s).listing = field.listing.map (NodeField.subst s) := by
  -- recursion on the fields of the field, which are less deep
  have hbelow : ∀ inner ∈ field.fields,
      (inner.subst s).listing = inner.listing.map (NodeField.subst s) :=
    fun inner _ => inner.listing_subst
  rw [listing_eq, listing_eq, fields_subst, List.flatMap_map, List.map_cons, List.map_flatMap,
    List.flatMap_congr hbelow]
termination_by field.depth
decreasing_by exact depth_lt ‹_›

/-- The events at substituted fields and below them. -/
theorem events_subst (loc : Location) (fields : List NodeField) :
    ((fields.map (NodeField.subst s)).flatMap listing).map (event loc)
      = ((fields.flatMap listing).map (event loc)).map (Event.subst s) := by
  simp only [List.flatMap_map, listing_subst, List.map_flatMap, List.map_map, Function.comp_def,
    event_subst]

end NodeField

/-- The listing of a substituted statement is its listing, substituted. -/
theorem Statement.listing_subst (loc : Location) (statement : Statement) :
    (statement.subst s).listing loc = (statement.listing loc).map (Event.subst s) := by
  rw [listing, fields_subst, NodeField.events_subst]
  rfl

/-- The listing of a substituted terminator is its listing, substituted. -/
theorem Terminator.listing_subst (loc : Location) (terminator : Terminator) :
    (terminator.subst s).listing loc = (terminator.listing loc).map (Event.subst s) := by
  rw [listing, fields_subst, NodeField.events_subst]
  rfl

theorem LocalDecl.listing_subst (slot : Nat) (decl : LocalDecl) :
    (decl.subst s).listing slot = (decl.listing slot).map (Event.subst s) :=
  rfl

/-- Nodes that are listed one after another are substituted one by one. -/
theorem flatten_listings_subst {α : Type} {subst : α → α} {listing : Nat → α → List Event}
    (h : ∀ i node, listing i (subst node) = (listing i node).map (Event.subst s))
    (nodes : List α) :
    ((nodes.map subst).mapIdx listing).flatten
      = (nodes.mapIdx listing).flatten.map (Event.subst s) := by
  simp only [List.mapIdx_eq_zipIdx_map, List.zipIdx_map, List.map_flatten, List.map_map,
    Function.comp_def, Prod.map_fst, Prod.map_snd, id_eq, h]

/-- The listing of a substituted block is its listing, substituted. -/
theorem Block.listing_subst (index : Nat) (block : Block) :
    (block.subst s).listing index = (block.listing index).map (Event.subst s) := by
  have hstatements := flatten_listings_subst s
    (fun i (statement : Statement) => statement.listing_subst s ⟨index, i⟩) block.statements
  simp only [Block.listing, Block.subst, List.length_map, hstatements, Terminator.listing_subst,
    List.map_cons, List.map_append, Event.subst]

/-- What a substituted body lists is what the body lists, substituted. -/
theorem Body.listing_subst (b : Body) :
    (b.subst s).listing = b.listing.map (Event.subst s) := by
  have hblocks := flatten_listings_subst s (Block.listing_subst s) b.blocks
  have hlocals := flatten_listings_subst s (LocalDecl.listing_subst s) b.locals
  rw [listing, listing, List.map_append, ← hblocks, ← hlocals]
  rfl

/-- A substituted listing is walked as far as the listing is. -/
theorem Trace.through_subst (events : List Event) :
    through (events.map (Event.subst s))
      = ⟨(through events).events.map (Event.subst s), (through events).stuck⟩ := by
  induction events with
  | nil => rfl
  | cons event events ih =>
      simp only [List.map_cons, through, event.unknown_subst, ih]
      cases event.unknown? <;> rfl

/-- A walk of a substituted body meets what a walk of the body meets, substituted. -/
theorem Body.walk_subst (b : Body) :
    (b.subst s).walk = ⟨b.walk.events.map (Event.subst s), b.walk.stuck⟩ := by
  rw [walk_eq, walk_eq, listing_subst, Trace.through_subst]

/-- Substitution in a body is substitution in the types that a walk meets and changes nothing
else, whatever the body holds. An operand of the substituted body has the substituted type, and
it has none, for the same reason, if the operand has none in the body. -/
theorem Body.retyped_subst (b : Body) :
    b.Retyped (Ty.subst s) (b.subst s) ∧ ∀ operand : Operand,
      (operand.subst s).ty (b.subst s).locals = (operand.ty b.locals).map (Ty.subst s) := by
  refine ⟨{
    walk := ?_
    stuck := by rw [walk_subst]
    listing := ?_
    block_count := List.length_map _
    local_count := List.length_map _
    arg_count := rfl
    mutability := ?_
    successors := ?_
    slots := ?_
    values := ?_
    items := ?_ }, fun operand => operand.ty_subst s b.locals⟩
  · rw [walk_subst]
    exact forall_retyped_subst s b.walk.events
  · rw [listing_subst]
    exact forall_retyped_subst s b.listing
  · show (b.locals.map (LocalDecl.subst s)).map LocalDecl.mutable = _
    rw [List.map_map]
    rfl
  · show (b.blocks.map (Block.subst s)).map (·.terminator.successors) = _
    rw [List.map_map]
    exact List.map_congr_left fun block _ => block.terminator.successors_subst s
  · rw [listing_subst, List.filterMap_map]
    exact List.filterMap_congr fun event _ => event.slot_subst s
  · rw [listing_subst, List.filterMap_map]
    exact List.filterMap_congr fun event _ => event.value_subst s
  · intro i loc function args value h
    rw [listing_subst, List.getElem?_map, h]
    show some (Event.operand loc (.const (.fnDef function (Ty.substAll s args)) value)) = _
    rw [Ty.substAll_eq_map]

end MirAudit
