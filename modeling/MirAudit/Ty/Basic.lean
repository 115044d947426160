import MirAudit.DefId

/-!
# Types

The types of a program are finite trees. Their equality is decidable, so a type can be looked up in
a table or a list. `Ty.hasParam` says whether a generic parameter occurs in a type.
-/

namespace MirAudit

/-- A type of the program under audit. -/
inductive Ty where
  /-- A primitive scalar. -/
  | scalar (name : String)
  /-- A nominal type with type arguments. -/
  | adt (name : String) (args : List Ty)
  /-- A reference, shared or mutable. -/
  | ref (pointee : Ty) (mutable : Bool)
  /-- A tuple; the empty one is the unit type. -/
  | tuple (elems : List Ty)
  /-- A generic parameter that has not been substituted. -/
  | param (name : String)
  /-- The type of a function item: the callee is known. -/
  | fnDef (callee : DefId) (args : List Ty)
  /-- A function pointer: the callee is known at run time only. -/
  | fnPtr (inputs : List Ty) (output : Ty)

namespace Ty

/-- The unit type. -/
def unit : Ty :=
  .tuple []

instance : Inhabited Ty :=
  ⟨unit⟩

/-- The names that denote a scalar when no parameter shadows them, and the type of no value. -/
def scalarNames : List String :=
  ["bool", "char", "str", "i8", "i16", "i32", "i64", "i128", "isize", "u8", "u16", "u32", "u64",
    "u128", "usize", "f32", "f64", "!"]

/-! ## Equality -/

mutual
/-- Whether two types are the same tree. -/
def beq : Ty → Ty → Bool
  | .scalar a, .scalar b => a == b
  | .adt a as, .adt b bs => a == b && beqAll as bs
  | .ref a m, .ref b n => beq a b && m == n
  | .tuple as, .tuple bs => beqAll as bs
  | .param a, .param b => a == b
  | .fnDef d as, .fnDef e bs => d == e && beqAll as bs
  | .fnPtr as a, .fnPtr bs b => beqAll as bs && beq a b
  | _, _ => false

/-- Whether two lists of types are the same, element by element. -/
def beqAll : List Ty → List Ty → Bool
  | [], [] => true
  | a :: as, b :: bs => beq a b && beqAll as bs
  | _, _ => false
end

mutual
theorem beq_self : ∀ t : Ty, beq t t = true
  | .scalar _ => by simp [beq]
  | .adt _ as => by simp [beq, beqAll_self as]
  | .ref t _ => by simp [beq, beq_self t]
  | .tuple ts => by simp [beq, beqAll_self ts]
  | .param _ => by simp [beq]
  | .fnDef _ as => by simp [beq, beqAll_self as]
  | .fnPtr ts t => by simp [beq, beqAll_self ts, beq_self t]

theorem beqAll_self : ∀ ts : List Ty, beqAll ts ts = true
  | [] => by simp [beqAll]
  | t :: ts => by simp [beqAll, beq_self t, beqAll_self ts]
end

mutual
theorem eq_of_beq : ∀ {a b : Ty}, beq a b = true → a = b
  | .scalar _, b, h => by cases b <;> simp_all [beq]
  | .adt _ as, b, h => by
    cases b <;> simp only [beq, Bool.and_eq_true, beq_iff_eq, Bool.false_eq_true] at h
    rw [h.1, eq_of_beqAll h.2]
  | .ref a _, b, h => by
    cases b <;> simp only [beq, Bool.and_eq_true, beq_iff_eq, Bool.false_eq_true] at h
    rw [h.2, eq_of_beq h.1]
  | .tuple _, b, h => by
    cases b <;> simp only [beq, Bool.false_eq_true] at h
    rw [eq_of_beqAll h]
  | .param _, b, h => by cases b <;> simp_all [beq]
  | .fnDef _ as, b, h => by
    cases b <;> simp only [beq, Bool.and_eq_true, beq_iff_eq, Bool.false_eq_true] at h
    rw [h.1, eq_of_beqAll h.2]
  | .fnPtr _ _, b, h => by
    cases b <;> simp only [beq, Bool.and_eq_true, Bool.false_eq_true] at h
    rw [eq_of_beqAll h.1, eq_of_beq h.2]

theorem eq_of_beqAll : ∀ {as bs : List Ty}, beqAll as bs = true → as = bs
  | [], bs, h => by cases bs <;> simp_all [beqAll]
  | _ :: _, bs, h => by
    cases bs <;> simp only [beqAll, Bool.and_eq_true, Bool.false_eq_true] at h
    rw [eq_of_beq h.1, eq_of_beqAll h.2]
end

/-- The test decides equality. -/
theorem beq_iff {a b : Ty} : beq a b = true ↔ a = b :=
  ⟨eq_of_beq, fun h => h ▸ beq_self a⟩

instance : DecidableEq Ty := fun _ _ =>
  decidable_of_iff _ beq_iff

/-! ## Parameters -/

mutual
/-- Whether a generic parameter occurs in the type. -/
def hasParam : Ty → Bool
  | .scalar _ => false
  | .adt _ args => anyHasParam args
  | .ref pointee _ => hasParam pointee
  | .tuple elems => anyHasParam elems
  | .param _ => true
  | .fnDef _ args => anyHasParam args
  | .fnPtr inputs output => anyHasParam inputs || hasParam output

/-- Whether a generic parameter occurs in one of the types. -/
def anyHasParam : List Ty → Bool
  | [] => false
  | t :: ts => hasParam t || anyHasParam ts
end

/-- A list of types has a parameter if one of its members has. -/
theorem anyHasParam_eq_any (ts : List Ty) : anyHasParam ts = ts.any hasParam := by
  induction ts with
  | nil => rfl
  | cons t ts ih => simp [anyHasParam, ih]

end Ty

end MirAudit
