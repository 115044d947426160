import Mathlib.Data.Set.Finite.Lattice
import Mathlib.Data.Set.Finite.List
import MirAudit.Ty.Subst

/-!
# Heads and parts of types

A type is a head with the types below it as parts, and `Ty.parts_induction` is induction over parts
alone. Only finitely many types of a bounded size have their heads in a finite set
(`finite_of_size_le`), and substitution brings in no new heads (`HeadsIn.subst`).
-/

namespace MirAudit.Ty

/-- What a type is apart from the types below it. -/
inductive Head where
  | scalar (name : String)
  | adt (name : String)
  | ref (mutable : Bool)
  | tuple
  | param (name : String)
  | fnDef (callee : DefId)
  | fnPtr

/-- The head of a type. -/
def head : Ty → Head
  | .scalar name => .scalar name
  | .adt name _ => .adt name
  | .ref _ mutable => .ref mutable
  | .tuple _ => .tuple
  | .param name => .param name
  | .fnDef callee _ => .fnDef callee
  | .fnPtr _ _ => .fnPtr

/-- The types below a type. The output of a function pointer comes in front of its inputs. -/
def parts : Ty → List Ty
  | .scalar _ | .param _ => []
  | .adt _ args | .fnDef _ args => args
  | .ref pointee _ => [pointee]
  | .tuple elems => elems
  | .fnPtr inputs output => output :: inputs

/-- The type with a given head and given parts. -/
def Head.build : Head → List Ty → Ty
  | .scalar name, _ => .scalar name
  | .adt name, args => .adt name args
  | .ref mutable, parts => .ref (parts.headD .unit) mutable
  | .tuple, elems => .tuple elems
  | .param name, _ => .param name
  | .fnDef callee, args => .fnDef callee args
  | .fnPtr, parts => .fnPtr parts.tail (parts.headD .unit)

theorem build_parts (t : Ty) : t.head.build t.parts = t := by
  cases t <;> rfl

mutual
/-- The number of nodes of a type. -/
def size : Ty → Nat
  | .scalar _ => 1
  | .adt _ args => sizeAll args + 1
  | .ref pointee _ => size pointee + 1
  | .tuple elems => sizeAll elems + 1
  | .param _ => 1
  | .fnDef _ args => sizeAll args + 1
  | .fnPtr inputs output => size output + sizeAll inputs + 1

/-- The number of nodes of some types. -/
def sizeAll : List Ty → Nat
  | [] => 0
  | t :: ts => size t + sizeAll ts
end

/-- A type has one node more than its parts. -/
theorem size_eq (t : Ty) : t.size = sizeAll t.parts + 1 := by
  cases t <;> simp [size, sizeAll, parts]

theorem size_pos (t : Ty) : 0 < t.size := by
  rw [size_eq]
  omega

theorem size_le_size_all {ts : List Ty} {t : Ty} (h : t ∈ ts) : t.size ≤ sizeAll ts := by
  induction ts with
  | nil => exact absurd h List.not_mem_nil
  | cons u ts ih =>
      rw [sizeAll]
      rcases List.mem_cons.mp h with rfl | h
      · omega
      · have hle := ih h
        omega

theorem length_le_size_all (ts : List Ty) : ts.length ≤ sizeAll ts := by
  induction ts with
  | nil => exact Nat.zero_le _
  | cons t ts ih =>
      have hpos := t.size_pos
      rw [sizeAll, List.length_cons]
      omega

/-- A part is smaller than the type. -/
theorem size_lt_of_mem_parts {t u : Ty} (h : u ∈ t.parts) : u.size < t.size := by
  have hle := size_le_size_all h
  rw [t.size_eq]
  omega

/-- What passes from the parts to the type holds of every type. -/
theorem parts_induction {P : Ty → Prop} (h : ∀ t, (∀ u ∈ t.parts, P u) → P t) (t : Ty) :
    P t := by
  induction hn : t.size using Nat.strong_induction_on generalizing t with
  | h n ih =>
      refine h t fun u hu => ?_
      have hlt := size_lt_of_mem_parts hu
      exact ih u.size (hn ▸ hlt) u rfl

/-- A type is concrete if it is no parameter and its parts are concrete. -/
theorem has_param_eq_false_iff {t : Ty} :
    t.hasParam = false ↔ (∀ name, t ≠ .param name) ∧ ∀ u ∈ t.parts, u.hasParam = false := by
  cases t <;> simp [hasParam, parts, anyHasParam_eq_any, and_comm]

/-- The parameter occurs in the type, at whatever depth. -/
inductive Mentions (name : String) : Ty → Prop where
  | self : Mentions name (.param name)
  | part {t u : Ty} : u ∈ t.parts → Mentions name u → Mentions name t

/-- The concrete types are those in which no parameter occurs. -/
theorem has_param_eq_false_iff_mentions {t : Ty} :
    t.hasParam = false ↔ ∀ name, ¬ t.Mentions name := by
  constructor
  · intro h name hmentions
    induction hmentions with
    | self => cases h
    | part hu _ ih => exact ih ((has_param_eq_false_iff.mp h).2 _ hu)
  · induction t using parts_induction with
    | h t ih =>
        intro h
        refine has_param_eq_false_iff.mpr ⟨fun name heq => ?_, fun u hu => ?_⟩
        · subst heq
          exact h name .self
        · exact ih u hu fun name hmentions => h name (.part hu hmentions)

/-! ## Heads -/

/-- All heads in the type lie in `S`. -/
inductive HeadsIn (S : Set Head) : Ty → Prop where
  | node {t : Ty} : t.head ∈ S → (∀ u ∈ t.parts, HeadsIn S u) → HeadsIn S t

variable {S : Set Head}

theorem HeadsIn.part {t u : Ty} (h : HeadsIn S t) (hu : u ∈ t.parts) : HeadsIn S u := by
  obtain ⟨_, hparts⟩ := h
  exact hparts u hu

theorem HeadsIn.mono {S' : Set Head} {t : Ty} (hsub : S ⊆ S') (h : HeadsIn S t) :
    HeadsIn S' t := by
  induction h with
  | node hhead _ ih => exact .node (hsub hhead) ih

/-- Some types have finitely many heads. -/
theorem exists_heads (ts : List Ty) : ∃ S : Set Head, S.Finite ∧ ∀ t ∈ ts, HeadsIn S t := by
  have hone : ∀ t : Ty, ∃ S : Set Head, S.Finite ∧ HeadsIn S t := by
    intro t
    induction t using parts_induction with
    | h t ih =>
        choose! heads hfinite hheads using ih
        refine ⟨insert t.head (⋃ u ∈ {u | u ∈ t.parts}, heads u), ?_, ?_⟩
        · exact (Set.Finite.biUnion t.parts.finite_toSet hfinite).insert _
        · refine .node (Set.mem_insert _ _) fun u hu => (hheads u hu).mono fun head hhead => ?_
          exact Set.mem_insert_of_mem _ (Set.mem_biUnion hu hhead)
  choose heads hfinite hheads using hone
  refine ⟨⋃ t ∈ {t | t ∈ ts}, heads t, ?_, fun t ht => (hheads t).mono fun head hhead => ?_⟩
  · exact ts.finite_toSet.biUnion fun t _ => hfinite t
  · exact Set.mem_biUnion ht hhead

/-- There are finitely many lists of a bounded length over a finite set. -/
theorem finite_lists {α : Type} {s : Set α} (hs : s.Finite) (n : Nat) :
    {l : List α | l.length ≤ n ∧ ∀ a ∈ l, a ∈ s}.Finite := by
  have hfinite : Finite s := hs
  refine ((List.finite_length_le s n).image (List.map Subtype.val)).subset ?_
  rintro l ⟨hlength, hmem⟩
  exact ⟨l.attachWith (· ∈ s) hmem, by simpa using hlength, by simp⟩

/-- There are finitely many types of a bounded size with heads in a finite set. -/
theorem finite_of_size_le (hS : S.Finite) (n : Nat) :
    {t : Ty | HeadsIn S t ∧ t.size ≤ n}.Finite := by
  induction n with
  | zero =>
      refine Set.finite_empty.subset fun t ht => ?_
      have hpos := t.size_pos
      exact absurd ht.2 (by omega)
  | succ n ih =>
      -- a type is its head, of which there are finitely many, and a short list of smaller types
      refine (hS.biUnion fun h _ => (finite_lists ih n).image h.build).subset fun t ht => ?_
      obtain ⟨⟨hhead, hparts⟩, hsize⟩ := ht
      rw [size_eq] at hsize
      refine Set.mem_biUnion hhead ⟨t.parts, ⟨?_, fun u hu => ⟨hparts u hu, ?_⟩⟩, build_parts t⟩
      · have hle := length_le_size_all t.parts
        omega
      · have hle := size_le_size_all hu
        omega

/-! ## Substitution -/

mutual
/-- A concrete type is not changed by substitution. -/
theorem subst_concrete (s : Subst) : ∀ {t : Ty}, t.hasParam = false → t.subst s = t
  | .scalar _, _ => rfl
  | .adt name args, h => congrArg (Ty.adt name) (subst_all_concrete s h)
  | .ref pointee mutable, h =>
    congrArg (fun t => Ty.ref t mutable) (subst_concrete s h)
  | .tuple elems, h => congrArg Ty.tuple (subst_all_concrete s h)
  | .fnDef callee args, h => congrArg (Ty.fnDef callee) (subst_all_concrete s h)
  | .fnPtr inputs output, h => by
    simp only [hasParam, Bool.or_eq_false_iff] at h
    rw [subst, subst_all_concrete s h.1, subst_concrete s h.2]

theorem subst_all_concrete (s : Subst) : ∀ {ts : List Ty}, anyHasParam ts = false →
    substAll s ts = ts
  | [], _ => rfl
  | t :: ts, h => by
    simp only [anyHasParam, Bool.or_eq_false_iff] at h
    rw [substAll, subst_concrete s h.1, subst_all_concrete s h.2]
end

/-- Substitution acts on the parts, except at a parameter. -/
theorem head_parts_subst (s : Subst) (t : Ty) :
    (∃ name, t = .param name) ∨
      (t.subst s).head = t.head ∧ (t.subst s).parts = t.parts.map (subst s) := by
  cases t with
  | param name => exact Or.inl ⟨name, rfl⟩
  | scalar | adt | ref | tuple | fnDef | fnPtr =>
      exact Or.inr ⟨rfl, by simp [subst, parts, substAll_eq_map]⟩

/-- Substitution brings in no heads but those of what it puts in. -/
theorem HeadsIn.subst {s : Subst} {t : Ty} (h : HeadsIn S t)
    (hs : ∀ name ty, s.lookup name = some ty → HeadsIn S ty) : HeadsIn S (t.subst s) := by
  induction h with
  | node hhead hparts ih =>
      rename_i t
      rcases head_parts_subst s t with ⟨name, rfl⟩ | ⟨hsame, hmap⟩
      · rw [Ty.subst]
        cases hlookup : s.lookup name with
        | none => exact .node hhead hparts
        | some ty => exact hs name ty hlookup
      · refine .node (hsame ▸ hhead) fun u hu => ?_
        rw [hmap] at hu
        obtain ⟨part, hpart, rfl⟩ := List.mem_map.mp hu
        exact ih part hpart

end MirAudit.Ty
