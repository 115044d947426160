import MirAudit.Body.Callee
import MirAudit.Body.Walk
import MirAudit.Model.Basic

/-!
# Discovery

Discovery collects every instance that is reachable from some roots by direct calls. It keeps a
stack of pending instances; an instance is entered once, and its callees are put on the stack so
that the last call comes first. A body that cannot be read and a call that cannot be followed become
findings, and the search goes on. A search need not end, so `Model.explore` takes fuel.
-/

namespace MirAudit

/-- Why a run stops without a result. -/
inductive Halt where
  | fault (fault : Fault)
  /-- The search was cut off. -/
  | outOfFuel
deriving DecidableEq

/-- A computation on a model that may stop. -/
abbrev Run (σ α : Type) := ExceptT Halt (StateM σ) α

/-- What a call contributes to discovery. -/
inductive Edge where
  | direct (callee : Instance)
  | indirect
  | broken (fault : CheckFault)
deriving DecidableEq

namespace Edge

/-- The instance that a direct call leads to. -/
def callee? : Edge → Option Instance
  | .direct callee => some callee
  | _ => none

/-- The finding about a call that cannot be followed. -/
def fault? : Edge → Option CheckFault
  | .broken fault => some fault
  | _ => none

/-- Whether the call goes through a function pointer. -/
def isIndirect : Edge → Bool
  | .indirect => true
  | _ => false

end Edge

/-- A fault as a finding, where a crash is a panic. A setup fault is none, and gives its message. -/
def Fault.contain : Fault → Except String CheckFault
  | .check fault => .ok fault
  | .crash c => .ok { kind := .panic, message := c.message }
  | .setup message => .error message

/-- The outcome of a query with every fault contained, except a setup fault. -/
def Query.attempt {σ α : Type} (q : Query σ α) : Query σ (Except CheckFault α) :=
  ExceptT.mk do
    match ← q.run with
    | .ok a => return .ok (.ok a)
    | .error fault =>
      match fault.contain with
      | .ok finding => return .ok (.error finding)
      | .error message => return .error (.setup message)

/-- A query as part of a run. -/
def Query.inRun {σ α : Type} (q : Query σ α) : Run σ α :=
  ExceptT.mk do
    match ← q.run with
    | .ok a => return .ok a
    | .error fault => return .error (.fault fault)

/-! ## Edges -/

namespace Model

variable {σ : Type} (m : Model σ)

/-- What the call of an operand contributes, or why it cannot be followed. -/
def target (locals : List LocalDecl) (func : Operand) : Query σ Edge := do
  match ← Query.ofExcept (func.callee locals) with
  | .indirect => return .indirect
  | .direct fn args => return .direct (← m.resolve fn args)

/-- What a call of an instance contributes. -/
def follow (caller : Instance) (locals : List LocalDecl) (site : CallSite) : Query σ Edge := do
  match ← (m.target locals site.func).attempt with
  | .ok edge => return edge
  | .error finding => return .broken (finding.located caller.name (some site.block))

/-- The slots and calls of an instance; an instance without body has none. -/
def callSites (i : Instance) : Query σ (List LocalDecl × List CallSite) := do
  match ← m.bodyOf i with
  | none => return ([], [])
  | some body =>
    match body.calls with
    | .ok sites => return (body.locals, sites)
    | .error crash => throw (.crash crash)

/-- The edges that leave an instance, in walk order. -/
def edges (i : Instance) : Query σ (List Edge) := do
  match ← (m.callSites i).attempt with
  | .ok (locals, sites) => sites.mapM (m.follow i locals)
  | .error finding => return [.broken (finding.located i.name none)]

end Model

/-! ## The search -/

/-- The state of a search: what was found so far, and the stack of pending instances. -/
structure Discovery where
  /-- The instances entered so far, in order. -/
  instances : List Instance := []
  errors : List CheckFault := []
  indirectCalls : Nat := 0
  /-- The set that guards against entering an instance again. -/
  visited : List Instance := []
  pending : List Instance := []
deriving DecidableEq

namespace Discovery

/-- The search that starts at some roots, which are taken in order. -/
def start (roots : List Instance) : Discovery :=
  { pending := roots }

/-- Whether an instance was entered. -/
def contains (d : Discovery) (i : Instance) : Bool :=
  i ∈ d.visited

/-- Records an instance as entered. -/
def mark (d : Discovery) (i : Instance) : Discovery :=
  { d with instances := d.instances ++ [i], visited := i :: d.visited }

/-- Enters an instance with its edges, when `rest` is what remains on the stack. -/
def enter (d : Discovery) (i : Instance) (edges : List Edge) (rest : List Instance) : Discovery :=
  let marked := d.mark i
  let fresh := (edges.filterMap Edge.callee?).filter fun callee => !marked.contains callee
  { marked with
    errors := d.errors ++ edges.filterMap Edge.fault?
    indirectCalls := d.indirectCalls + edges.countP Edge.isIndirect
    pending := fresh.reverse ++ rest }

end Discovery

namespace Model

variable {σ : Type} (m : Model σ)

/-- Takes the next instance from the stack and enters it, unless it was entered before. -/
def step (d : Discovery) : Query σ Discovery :=
  match d.pending with
  | [] => pure d
  | i :: rest =>
    if d.contains i then pure { d with pending := rest }
    else do
      let edges ← m.edges i
      return d.enter i edges rest

/-- Continues a search until nothing is pending, for `fuel` steps at most. -/
def explore : (fuel : Nat) → Discovery → Run σ Discovery
  | fuel, d =>
    if d.pending.isEmpty then pure d
    else
      match fuel with
      | 0 => throw .outOfFuel
      | fuel + 1 => do explore fuel (← (m.step d).inRun)

/-- Everything reachable from the roots. -/
def discover (fuel : Nat) (roots : List Instance) : Run σ Discovery :=
  m.explore fuel (.start roots)

end Model

end MirAudit
