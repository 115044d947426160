import Mathlib.Algebra.GroupWithZero.Nat
import Mathlib.Data.Finset.Card
import Mathlib.Data.Set.Finite.Basic
import Mathlib.Logic.Relation
import MirAudit.Proofs.Discovery.Edges

/-!
# The search over fixed edges

When the edges of every instance are fixed, a search is a function of its state. `Faithful` is what
every step preserves: nothing is entered twice, everything entered or pending can be reached, the
callees of what was entered are entered or pending, and the findings are those about its edges. Read
`mem_instances_of_search` and `search_ends_iff` first: a search that ends has found what can be
reached, and it ends exactly if that is finite.
-/

namespace MirAudit.Discovery

/-! ## Steps -/

/-- One step of a search: the next pending instance is entered, unless it was entered before. -/
def advance (edges : Instance → List Edge) (d : Discovery) : Discovery :=
  match d.pending with
  | [] => d
  | i :: rest => if d.contains i then { d with pending := rest } else d.enter i (edges i) rest

/-- The end of a search, if nothing is pending any more after `fuel` steps. -/
def search (edges : Instance → List Edge) : (fuel : Nat) → Discovery → Option Discovery
  | fuel, d =>
    if d.pending.isEmpty then some d
    else
      match fuel with
      | 0 => none
      | fuel + 1 => search edges fuel (d.advance edges)

/-- `j` is a callee among the edges of `i`. -/
def HasCallee (edges : Instance → List Edge) (i j : Instance) : Prop :=
  j ∈ (edges i).filterMap Edge.callee?

/-- `i` is a root or is reached from one through callees. -/
def Reaches (edges : Instance → List Edge) (roots : List Instance) (i : Instance) : Prop :=
  ∃ root ∈ roots, Relation.ReflTransGen (HasCallee edges) root i

variable {edges : Instance → List Edge} {roots : List Instance}

theorem Reaches.of_root {root : Instance} (h : root ∈ roots) : Reaches edges roots root :=
  ⟨root, h, .refl⟩

theorem Reaches.callee {i j : Instance} (hi : Reaches edges roots i) (hj : HasCallee edges i j) :
    Reaches edges roots j := by
  obtain ⟨root, hroot, hi⟩ := hi
  exact ⟨root, hroot, hi.tail hj⟩

theorem contains_iff {d : Discovery} {i : Instance} : d.contains i = true ↔ i ∈ d.visited := by
  simp [contains]

theorem advance_of_done {d : Discovery} (hpending : d.pending = []) : d.advance edges = d := by
  simp [advance, hpending]

theorem advance_of_visited {d : Discovery} {i : Instance} {rest : List Instance}
    (hpending : d.pending = i :: rest) (hi : i ∈ d.visited) :
    d.advance edges = { d with pending := rest } := by
  simp [advance, hpending, contains_iff.mpr hi]

theorem advance_of_fresh {d : Discovery} {i : Instance} {rest : List Instance}
    (hpending : d.pending = i :: rest) (hi : i ∉ d.visited) :
    d.advance edges = d.enter i (edges i) rest := by
  simp [advance, hpending, contains_iff, hi]

@[simp] theorem instances_enter (d : Discovery) (i : Instance) (es : List Edge)
    (rest : List Instance) : (d.enter i es rest).instances = d.instances ++ [i] :=
  rfl

@[simp] theorem visited_enter (d : Discovery) (i : Instance) (es : List Edge)
    (rest : List Instance) : (d.enter i es rest).visited = i :: d.visited :=
  rfl

/-- The callees of an entered instance are put on the stack, the last one on top, unless they were
entered before. -/
theorem pending_enter (d : Discovery) (i : Instance) (es : List Edge) (rest : List Instance) :
    (d.enter i es rest).pending =
      ((es.filterMap Edge.callee?).reverse.filter fun j => j ∉ i :: d.visited) ++ rest := by
  simp [enter, mark, contains]

theorem mem_pending_enter {d : Discovery} {i j : Instance} {es : List Edge}
    {rest : List Instance} :
    j ∈ (d.enter i es rest).pending ↔
      (j ∈ es.filterMap Edge.callee? ∧ j ∉ i :: d.visited) ∨ j ∈ rest := by
  simp [pending_enter]

/-! ## Ends -/

/-- A search ends at one of its points. -/
theorem exists_iterate_of_search {fuel : Nat} {d last : Discovery}
    (h : d.search edges fuel = some last) :
    ∃ n, (Discovery.advance edges)^[n] d = last ∧ last.pending = [] := by
  induction fuel generalizing d with
  | zero =>
      unfold search at h
      split at h
      next hempty =>
        obtain rfl := Option.some.inj h
        exact ⟨0, rfl, List.isEmpty_iff.mp hempty⟩
      next => simp at h
  | succ fuel ih =>
      unfold search at h
      split at h
      next hempty =>
        obtain rfl := Option.some.inj h
        exact ⟨0, rfl, List.isEmpty_iff.mp hempty⟩
      next =>
        obtain ⟨n, hn⟩ := ih h
        exact ⟨n + 1, hn⟩

/-- A search ends at a point where nothing is pending. -/
theorem search_of_iterate {n : Nat} {d : Discovery}
    (h : ((Discovery.advance edges)^[n] d).pending = []) :
    d.search edges n = some ((Discovery.advance edges)^[n] d) := by
  induction n generalizing d with
  | zero => simp [search, show d.pending = [] from h]
  | succ n ih =>
      rw [Function.iterate_succ_apply] at h ⊢
      unfold search
      split
      next hempty =>
        rw [advance_of_done (List.isEmpty_iff.mp hempty),
          Function.iterate_fixed (advance_of_done (List.isEmpty_iff.mp hempty))]
      next => exact ih h

/-! ## The invariant -/

/-- What holds at every point of a search from `roots`. -/
structure Faithful (edges : Instance → List Edge) (roots : List Instance) (d : Discovery) :
    Prop where
  nodup : d.instances.Nodup
  visited_iff : ∀ i, i ∈ d.visited ↔ i ∈ d.instances
  reached : ∀ i, i ∈ d.instances ∨ i ∈ d.pending → Reaches edges roots i
  rooted : ∀ root ∈ roots, root ∈ d.instances ∨ root ∈ d.pending
  closed : ∀ i ∈ d.instances, ∀ j, HasCallee edges i j → j ∈ d.instances ∨ j ∈ d.pending
  errors : d.errors = d.instances.flatMap fun i => (edges i).filterMap Edge.fault?
  indirect : d.indirectCalls = (d.instances.map fun i => (edges i).countP Edge.isIndirect).sum

namespace Faithful

theorem start (edges : Instance → List Edge) (roots : List Instance) :
    Faithful edges roots (.start roots) where
  nodup := List.nodup_nil
  visited_iff := by simp [Discovery.start]
  reached i hi := .of_root (by simpa [Discovery.start] using hi)
  rooted _ hroot := Or.inr hroot
  closed i hi := by simp [Discovery.start] at hi
  errors := rfl
  indirect := rfl

/-- An instance that was entered before is dropped from the stack. -/
theorem drop {d : Discovery} {i : Instance} {rest : List Instance}
    (h : Faithful edges roots d) (hpending : d.pending = i :: rest) (hi : i ∈ d.visited) :
    Faithful edges roots { d with pending := rest } where
  nodup := h.nodup
  visited_iff := h.visited_iff
  reached j hj := h.reached j (hj.imp_right fun hj => by simp [hpending, hj])
  rooted root hroot := by
    rcases h.rooted root hroot with hroot | hroot
    · exact Or.inl hroot
    · rcases List.mem_cons.mp (hpending ▸ hroot) with rfl | hroot
      · exact Or.inl ((h.visited_iff root).mp hi)
      · exact Or.inr hroot
  closed k hk j hj := by
    rcases h.closed k hk j hj with hj | hj
    · exact Or.inl hj
    · rcases List.mem_cons.mp (hpending ▸ hj) with rfl | hj
      · exact Or.inl ((h.visited_iff j).mp hi)
      · exact Or.inr hj
  errors := h.errors
  indirect := h.indirect

/-- What was entered or pending before a fresh instance is entered is so afterwards. -/
theorem mem_enter {d : Discovery} {i j : Instance} {rest : List Instance}
    (hpending : d.pending = i :: rest) (hj : j ∈ d.instances ∨ j ∈ d.pending) :
    j ∈ (d.enter i (edges i) rest).instances ∨ j ∈ (d.enter i (edges i) rest).pending := by
  rw [hpending] at hj
  rw [instances_enter, mem_pending_enter]
  rcases hj with hj | hj
  · exact Or.inl (List.mem_append_left _ hj)
  · rcases List.mem_cons.mp hj with rfl | hj
    · exact Or.inl (by simp)
    · exact Or.inr (Or.inr hj)

/-- A fresh instance is entered with its callees. -/
theorem enter {d : Discovery} {i : Instance} {rest : List Instance}
    (h : Faithful edges roots d) (hpending : d.pending = i :: rest) (hi : i ∉ d.visited) :
    Faithful edges roots (d.enter i (edges i) rest) where
  nodup := by
    rw [instances_enter]
    refine h.nodup.append (List.nodup_singleton i) ?_
    simpa [h.visited_iff] using hi
  visited_iff j := by simp [h.visited_iff, or_comm]
  reached j hj := by
    have hroot : Reaches edges roots i := h.reached i (Or.inr (by simp [hpending]))
    rw [instances_enter, mem_pending_enter] at hj
    rcases hj with hj | ⟨hj, _⟩ | hj
    · rcases List.mem_append.mp hj with hj | hj
      · exact h.reached j (Or.inl hj)
      · obtain rfl := List.mem_singleton.mp hj
        exact hroot
    · exact hroot.callee hj
    · exact h.reached j (Or.inr (by simp [hpending, hj]))
  rooted root hroot := mem_enter hpending (h.rooted root hroot)
  closed k hk j hj := by
    rw [instances_enter] at hk
    rcases List.mem_append.mp hk with hk | hk
    · exact mem_enter hpending (h.closed k hk j hj)
    · obtain rfl := List.mem_singleton.mp hk
      -- a callee of the new instance is known already, or else it was pushed
      by_cases hvisited : j ∈ k :: d.visited
      · rw [← visited_enter d k (edges k) rest] at hvisited
        exact Or.inl (by simpa [h.visited_iff, or_comm] using hvisited)
      · exact Or.inr (mem_pending_enter.mpr (Or.inl ⟨hj, hvisited⟩))
  errors := by
    rw [instances_enter, List.flatMap_append, List.flatMap_singleton, ← h.errors]
    rfl
  indirect := by
    rw [instances_enter, List.map_append, List.sum_append, ← h.indirect, List.map_singleton,
      List.sum_singleton]
    rfl

/-- Every step preserves the invariant. -/
theorem advance {d : Discovery} (h : Faithful edges roots d) :
    Faithful edges roots (d.advance edges) := by
  rcases hpending : d.pending with _ | ⟨i, rest⟩
  · simpa [Discovery.advance, hpending] using h
  · by_cases hi : i ∈ d.visited
    · rw [advance_of_visited hpending hi]
      exact h.drop hpending hi
    · rw [advance_of_fresh hpending hi]
      exact h.enter hpending hi

/-- Any number of steps preserve the invariant. -/
theorem iterate {d : Discovery} (h : Faithful edges roots d) (n : Nat) :
    Faithful edges roots ((Discovery.advance edges)^[n] d) := by
  induction n generalizing d with
  | zero => exact h
  | succ n ih => exact ih h.advance

/-- A search ends in a state of the invariant in which nothing is pending. -/
theorem search {fuel : Nat} {d last : Discovery} (h : Faithful edges roots d)
    (hsearch : d.search edges fuel = some last) :
    Faithful edges roots last ∧ last.pending = [] := by
  obtain ⟨n, rfl, hpending⟩ := exists_iterate_of_search hsearch
  exact ⟨h.iterate n, hpending⟩

/-- Where nothing is pending, exactly what can be reached was entered. -/
theorem mem_iff {d : Discovery} (h : Faithful edges roots d) (hpending : d.pending = [])
    (i : Instance) : i ∈ d.instances ↔ Reaches edges roots i := by
  constructor
  · exact fun hi => h.reached i (Or.inl hi)
  · intro h
    obtain ⟨root, hroot, hpath⟩ := h
    induction hpath with
    | refl => simpa [hpending] using h.rooted root hroot
    | tail _ hcallee ih => simpa [hpending] using h.closed _ ih _ hcallee

end Faithful

/-- A search that ends has entered exactly what can be reached from its roots. -/
theorem mem_instances_of_search {fuel : Nat} {d : Discovery}
    (h : (start roots).search edges fuel = some d) (i : Instance) :
    i ∈ d.instances ↔ Reaches edges roots i := by
  obtain ⟨hd, hpending⟩ := (Faithful.start edges roots).search h
  exact hd.mem_iff hpending i

/-! ## Termination -/

/-- A search ends when what can be reached lies in a finite set: a step enters an instance of the
set or shortens the stack. -/
theorem search_ends {bound : Finset Instance}
    (hbound : ∀ i, Reaches edges roots i → i ∈ bound) {d : Discovery}
    (h : Faithful edges roots d) : ∃ fuel last, d.search edges fuel = some last := by
  rcases hpending : d.pending with _ | ⟨i, rest⟩
  · exact ⟨0, d, by simp [search, hpending]⟩
  · obtain ⟨fuel, last, hlast⟩ := search_ends hbound h.advance
    exact ⟨fuel + 1, last, by simpa [search, hpending] using hlast⟩
termination_by ((bound.filter (· ∉ d.instances)).card, d.pending.length)
decreasing_by
  by_cases hi : i ∈ d.visited
  · rw [advance_of_visited hpending hi]
    exact Prod.Lex.right _ (by simp [hpending])
  · rw [advance_of_fresh hpending hi]
    refine Prod.Lex.left _ _ (Finset.card_lt_card ?_)
    have hentered : i ∉ d.instances := by rwa [← h.visited_iff]
    have hreached : i ∈ bound := hbound i (h.reached i (Or.inr (by simp [hpending])))
    refine (Finset.ssubset_iff_of_subset fun j hj => ?_).mpr ⟨i, ?_, ?_⟩
    · simp only [Finset.mem_filter, instances_enter, List.mem_append, not_or] at hj ⊢
      exact ⟨hj.1, hj.2.1⟩
    · exact Finset.mem_filter.mpr ⟨hreached, hentered⟩
    · simp

/-- A search from some roots ends exactly if only finitely many instances can be reached. -/
theorem search_ends_iff :
    (∃ fuel last, (start roots).search edges fuel = some last) ↔
      {i | Reaches edges roots i}.Finite := by
  constructor
  · intro h
    obtain ⟨fuel, last, h⟩ := h
    refine (List.finite_toSet last.instances).subset fun i hi => ?_
    exact (mem_instances_of_search h i).mpr hi
  · intro hfinite
    exact search_ends (fun i hi => hfinite.mem_toFinset.mpr hi) (Faithful.start edges roots)

end MirAudit.Discovery
