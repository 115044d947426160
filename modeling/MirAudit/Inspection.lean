import MirAudit.Check.Suite

/-!
# Inspection

An inspection prints what a model knows about a program: its items with their spans, and then the
entry instance with its names, the types a walk of it surfaces, the instances it calls directly and
its body. What was printed before a fault stays printed.
-/

namespace MirAudit

/-- What was printed: notes on standard error, and the body on standard output. -/
structure Printed where
  notes : String := ""
  body : String := ""

/-- What is known of an instance: the types and the direct callees, each once, in walk order. -/
structure Inspection where
  types : List Ty := []
  calls : List Instance := []

/-- A computation that queries a model and prints. -/
abbrev Inspect (σ α : Type) := ExceptT Fault (StateT Printed (StateM σ)) α

namespace Inspect

variable {σ α : Type}

/-- A query as part of an inspection. -/
def ofQuery (q : Query σ α) : Inspect σ α :=
  ExceptT.mk (StateT.lift q.run)

/-- Prints a line of notes. -/
def note (line : String) : Inspect σ Unit :=
  modify fun printed => { printed with notes := printed.notes ++ line ++ "\n" }

/-- Prints to standard output. -/
def print (text : String) : Inspect σ Unit :=
  modify fun printed => { printed with body := printed.body ++ text }

/-- The outcome of an inspection, what it printed and the state of the model it leaves. -/
def execute (inspect : Inspect σ α) (state : σ) : Except Fault α × Printed × σ :=
  match (inspect.run.run {}).run state with
  | ((outcome, printed), state) => (outcome, printed, state)

end Inspect

namespace Inspection

/-- The list with an element, unless it is there already. -/
def addOnce {α : Type} [DecidableEq α] (a : α) (as : List α) : List α :=
  if a ∈ as then as else as ++ [a]

/-- The types in the order of their printed forms. -/
def sortedTypes (i : Inspection) : List Ty :=
  i.types.mergeSort fun a b => a.render ≤ b.render

/-- What is known after one more event. -/
def observe {σ : Type} (m : Model σ) (locals : List LocalDecl) (known : Inspection) :
    Event → Query σ Inspection
  | .terminator _ (.call func _ _ _) => do
    match ← m.target locals func with
    | .direct callee => return { known with calls := addOnce callee known.calls }
    | _ => return known
  | .ty _ ty => return { known with types := addOnce ty known.types }
  | _ => return known

/-- What a walk of a body finds. Calls are followed while the walk goes on. -/
def ofBody {σ : Type} (m : Model σ) (body : Body) : Query σ Inspection := do
  let trace := body.walk
  let known ← trace.events.foldlM (observe m body.locals) {}
  match trace.stuck with
  | none => return known
  | some node => throw (.crash (.unknownNode node))

end Inspection

namespace Model

variable {σ : Type} (m : Model σ)

/-- Inspects an instance. -/
def inspectInstance (i : Instance) : Inspect σ Inspection := do
  Inspect.note ("--- Analyzing instance: " ++ i.name)
  Inspect.note ("  - Mangled name: " ++ i.mangledName)
  match ← Inspect.ofQuery (m.bodyOf i) with
  | none => throw (.setup ("instance `" ++ i.name ++ "` has no body"))
  | some body =>
    let known ← Inspect.ofQuery (Inspection.ofBody m body)
    known.sortedTypes.forM fun ty => Inspect.note ("  - Visited: " ++ ty.render)
    known.calls.forM fun callee => Inspect.note ("  - Call: " ++ callee.name)
    Inspect.print (body.render i.name ++ "\n")
    return known

/-- Inspects a program: its items, then the entry instance. -/
def inspect : Inspect σ Inspection := do
  let crate ← Inspect.ofQuery m.localCrate
  Inspect.note ("--- Analyzing crate: " ++ crate.name)
  (← Inspect.ofQuery m.localItems).forM fun item =>
    Inspect.note ("  - " ++ item.name ++ " @" ++ item.span.render)
  match ← Inspect.ofQuery m.entryFn with
  | none => throw (.setup "program has no entry point")
  | some entry =>
    match ← Inspect.ofQuery (m.instanceOf entry) with
    | none => throw (.setup ("entry point `" ++ entry.name ++ "` cannot be instantiated"))
    | some i => m.inspectInstance i

end Model

end MirAudit
