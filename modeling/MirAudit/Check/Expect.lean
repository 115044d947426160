import MirAudit.Decl
import MirAudit.Fault
import MirAudit.Instance

/-!
# Expectations

A check compares what it found with what it expected. Values are compared as the program sees them:
spans do not count and a truth value equals its number. A disagreement shows both descriptions.
-/

namespace MirAudit

/-- A type whose values can be compared and described. -/
class Comparable (α : Type) where
  same : α → α → Bool
  describe : α → String

namespace Comparable

instance : Comparable Nat := ⟨(· == ·), Describe.nat⟩

instance : Comparable Statement :=
  ⟨fun a b => a.canonical = b.canonical, Statement.describe⟩

instance : Comparable Terminator :=
  ⟨fun a b => a.canonical = b.canonical, Terminator.describe⟩

instance : Comparable Crate := ⟨fun a b => a = b, Crate.describe⟩

instance : Comparable Item := ⟨fun a b => a.unspanned = b.unspanned, Item.describe⟩

instance : Comparable TraitDecl :=
  ⟨fun a b => a.unspanned = b.unspanned, TraitDecl.describe⟩

instance : Comparable TraitImpl :=
  ⟨fun a b => a.unspanned = b.unspanned, TraitImpl.describe⟩

/-- Whether two values are both absent, or both present and the same. -/
def sameOption {α : Type} [Comparable α] : Option α → Option α → Bool
  | none, none => true
  | some a, some b => same a b
  | _, _ => false

instance {α : Type} [Comparable α] : Comparable (Option α) :=
  ⟨sameOption, Describe.option describe⟩

end Comparable

/-- Where a check looks: a function and one of its blocks, as far as these are known. -/
structure Place where
  function : Option String := none
  block : Option BlockNumber := none

/-- Requires what was found to be what was expected. -/
def expectSame {α : Type} [Comparable α] (what : String) (found expected : α) (place : Place) :
    Except CheckFault Unit :=
  if Comparable.same found expected then .ok ()
  else
    .error
      { kind := .mismatch, message := what, function := place.function, block := place.block,
        expected := some (Comparable.describe expected), found := some (Comparable.describe found) }

/-- Requires a condition to hold. -/
def expect (condition : Bool) (message : String) (place : Place) : Except CheckFault Unit :=
  if condition then .ok ()
  else .error { kind := .plain, message, function := place.function, block := place.block }

end MirAudit
