/-!
# Positions

A position in a list is an integer. From zero on it counts from the front, and a negative one counts
from the back: the last element is at -1.
-/

namespace MirAudit.Position

/-- The index of a position in a list of the given length, if an element stands there. -/
def index? (length : Nat) (i : Int) : Option Nat :=
  let j := if i < 0 then i + length else i
  if 0 ≤ j ∧ j < length then some j.toNat else none

/-- How many elements of a list of the given length stand in front of a position. -/
def cut (length : Nat) (i : Int) : Nat :=
  min length (if i < 0 then i + length else i).toNat

/-- The element at a position. -/
def get? {α : Type} (xs : List α) (i : Int) : Option α :=
  (index? xs.length i).bind (xs[·]?)

/-- The list with another element at a position, or the list itself if nothing stands there. -/
def set {α : Type} (xs : List α) (i : Int) (a : α) : List α :=
  match index? xs.length i with
  | some n => xs.set n a
  | none => xs

theorem index?_natCast (length n : Nat) :
    index? length n = if n < length then some n else none := by
  have h : ¬ (n : Int) < 0 := by omega
  simp [index?, h]

theorem cut_natCast (length n : Nat) : cut length n = min length n := by
  have h : ¬ (n : Int) < 0 := by omega
  simp [cut, h]

theorem get?_natCast {α : Type} (xs : List α) (n : Nat) : get? xs n = xs[n]? := by
  by_cases h : n < xs.length <;> simp [get?, index?_natCast, h]

theorem get?_map {α β : Type} (f : α → β) (xs : List α) (i : Int) :
    get? (xs.map f) i = (get? xs i).map f := by
  cases h : index? xs.length i <;> simp [get?, h]

end MirAudit.Position
