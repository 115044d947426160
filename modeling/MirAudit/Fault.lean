import MirAudit.Body.Basic
import MirAudit.Ty.Subst

/-!
# Faults

A query or a check can go wrong in three ways. A `CheckFault` is a finding about the program: it is
reported and the run goes on. A setup fault means that the program cannot be queried at all and
ends the run. A `Crash` is anything else; it is contained in the check or the call edge where it
happens and reported as a panic.
-/

namespace MirAudit

/-- The kinds of nodes that may be of an unknown form. -/
inductive NodeRole where
  | statement
  | terminator
  | rvalue
  | operand
deriving DecidableEq

/-- The word for a kind of node. -/
def NodeRole.word : NodeRole → String
  | .statement => "statement"
  | .terminator => "terminator"
  | .rvalue => "rvalue"
  | .operand => "operand"

/-- A node of a form that this library does not know. -/
structure UnknownNode where
  role : NodeRole
  kind : String
deriving DecidableEq

/-- What went wrong when something failed that was not meant to. -/
inductive Crash where
  /-- A walk met a node of an unknown form. -/
  | unknownNode (node : UnknownNode)
  /-- The type of an operand of an unknown form was asked. -/
  | untypedOperand (kind : String)
  /-- A list was indexed past its end. -/
  | outOfRange
  /-- A function was instantiated with the wrong number of arguments. -/
  | arity (mismatch : ArityMismatch)
  /-- A table has no entry for a key, given by its description. -/
  | missingKey (key : String)
  /-- A query failed in a way of its own. -/
  | other (label text : String)
deriving DecidableEq

namespace Crash

/-- The class of a crash, as a report names it. -/
def label : Crash → String
  | .unknownNode _ | .untypedOperand _ => "TypeError"
  | .outOfRange => "IndexError"
  | .arity _ => "ValueError"
  | .missingKey _ => "KeyError"
  | .other label _ => label

/-- What a report says about a crash. -/
def text : Crash → String
  | .unknownNode node => "unknown MIR " ++ node.role.word ++ " kind " ++ node.kind
  | .untypedOperand kind => "unknown operand kind " ++ kind
  | .outOfRange => "tuple index out of range"
  | .arity mismatch => mismatch.message
  | .missingKey key => key
  | .other _ text => text

/-- The message for a contained crash. -/
def message (c : Crash) : String :=
  "Panic! " ++ c.label ++ ": " ++ c.text

end Crash

/-- The kinds of findings about a program. -/
inductive FindingKind where
  /-- A check does not hold. -/
  | plain
  /-- A call target cannot be instantiated with its type arguments. -/
  | resolution
  /-- A callee is neither a function item nor a function pointer. -/
  | calleeShape
  /-- What a walk saw is not what the model reports. -/
  | mismatch
  /-- A crash while following a call edge or reading a body. -/
  | panic
deriving DecidableEq

/-- The stable code of a kind of finding. -/
def FindingKind.code : FindingKind → String
  | .plain => "E-CHECK"
  | .resolution => "E-RESOLVE"
  | .calleeShape => "E-CALLEE-SHAPE"
  | .mismatch => "E-MISMATCH"
  | .panic => "E-PANIC"

/-- A finding, attributed to a function and one of its blocks where these are known. -/
structure CheckFault where
  kind : FindingKind
  message : String
  function : Option String := none
  block : Option BlockNumber := none
  expected : Option String := none
  found : Option String := none
deriving DecidableEq

namespace CheckFault

/-- The same finding, attributed to a function and maybe a block. -/
def located (f : CheckFault) (function : String) (block : Option BlockNumber) : CheckFault :=
  { f with function := some function, block := block }

/-- The place of a finding, in front of its message. -/
def placeText (f : CheckFault) : String :=
  match f.function, f.block with
  | none, _ => ""
  | some function, none => "Function " ++ function ++ ": "
  | some function, some block => "Function " ++ function ++ " (bb" ++ toString block ++ "): "

/-- What was expected and what was found, if either is known and the finding is a mismatch. -/
def comparisonText (f : CheckFault) : String :=
  if f.kind = .mismatch ∧ (f.expected.isSome ∨ f.found.isSome) then
    ": \n Expected: " ++ f.expected.getD Describe.none ++ "\n Found: "
      ++ f.found.getD Describe.none
  else ""

/-- The finding as a user reads it. -/
def render (f : CheckFault) : String :=
  f.placeText ++ f.message ++ f.comparisonText

end CheckFault

/-- Everything that a query or a check can fail with. -/
inductive Fault where
  | check (fault : CheckFault)
  | setup (message : String)
  | crash (crash : Crash)
deriving DecidableEq

namespace Fault

/-- The code of a setup fault. -/
def setupCode : String :=
  "E-SETUP"

/-- The fault as a user reads it. -/
def render : Fault → String
  | .check fault => fault.render
  | .setup message => "[" ++ setupCode ++ "] " ++ message
  | .crash c => c.text

end Fault

end MirAudit
