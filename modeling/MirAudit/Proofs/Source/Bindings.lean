import MirAudit.Proofs.Source.Names
import MirAudit.Proofs.Ty.Parts

/-!
# Names that are bound

A scope may bind a name more than once, and the last binding counts, while a substitution takes the
first one. `lookup_reverse_of_count` says when they agree. What is written in a scope is made of what
is bound there (`TypeTree.lower_induction`); so where only concrete types are bound, only concrete
types can be written.
-/

namespace MirAudit.Source

/-! ## First and last bindings -/

section Bindings

variable {l : List (String × Ty)} {name : String}

/-- A name is not found exactly if it is not bound. -/
theorem lookup_eq_none_iff_not_mem : l.lookup name = none ↔ name ∉ l.map Prod.fst := by
  rw [List.lookup_eq_none_iff, List.mem_map]
  simp only [bne_iff_ne, ne_eq]
  constructor
  · intro h hmem
    obtain ⟨entry, hentry, heq⟩ := hmem
    exact h entry hentry heq.symm
  · intro h entry hentry heq
    exact h ⟨entry, hentry, heq.symm⟩

/-- What is found for a name is bound to it. -/
theorem mem_of_lookup {ty : Ty} (h : l.lookup name = some ty) : (name, ty) ∈ l := by
  obtain ⟨before, behind, rfl, -⟩ := List.lookup_eq_some_iff.mp h
  exact List.mem_append_right before List.mem_cons_self

/-- Behind the others, a binding counts where no other one does. -/
theorem lookup_reverse_cons {first : String} {ty : Ty} :
    ((first, ty) :: l).reverse.lookup name =
      (l.reverse.lookup name).or (if name = first then some ty else none) := by
  rw [List.reverse_cons, List.lookup_append, List.lookup_cons, List.lookup_nil]
  by_cases hname : name = first
  · simp [hname]
  · have hne : (name == first) = false := beq_eq_false_iff_ne.mpr hname
    rw [hne, if_neg hname]

/-- The first binding counts for its name. -/
theorem lookup_cons_eq {first : String} {ty : Ty} :
    ((first, ty) :: l).lookup name = if name = first then some ty else l.lookup name := by
  rw [List.lookup_cons]
  by_cases hname : name = first
  · simp [hname]
  · have hne : (name == first) = false := beq_eq_false_iff_ne.mpr hname
    rw [hne, if_neg hname]

/-- A name that is not bound is not found from the end either. -/
theorem lookup_reverse_eq_none (h : name ∉ l.map Prod.fst) : l.reverse.lookup name = none := by
  rw [lookup_eq_none_iff_not_mem, List.map_reverse, List.mem_reverse]
  exact h

/-- Something is found for a name that is bound. -/
theorem exists_lookup (h : name ∈ l.map Prod.fst) : ∃ ty, l.lookup name = some ty := by
  cases hlookup : l.lookup name with
  | some ty => exact ⟨ty, rfl⟩
  | none => exact absurd h (lookup_eq_none_iff_not_mem.mp hlookup)

/-- Something is found from the end for a name that is bound. -/
theorem exists_lookup_reverse (h : name ∈ l.map Prod.fst) :
    ∃ ty, l.reverse.lookup name = some ty := by
  refine exists_lookup ?_
  rw [List.map_reverse, List.mem_reverse]
  exact h

/-- The last binding of a name that is bound once is its first one. -/
theorem lookup_reverse_of_count (h : (l.map Prod.fst).count name ≤ 1) :
    l.reverse.lookup name = l.lookup name := by
  induction l with
  | nil => rfl
  | cons entry l ih =>
      obtain ⟨first, ty⟩ := entry
      rw [lookup_reverse_cons, lookup_cons_eq]
      rw [List.map_cons, List.count_cons] at h
      by_cases hname : name = first
      · obtain rfl := hname
        have hcount : (l.map Prod.fst).count name = 0 := by
          simp only [beq_self_eq_true, if_true] at h
          omega
        rw [lookup_reverse_eq_none (List.count_eq_zero.mp hcount), Option.none_or, if_pos rfl,
          if_pos rfl]
      · rw [if_neg hname, if_neg hname, Option.or_none, ih (by omega)]

/-- If all bound types differ, only a name that is bound once has the same first and last
binding. -/
theorem count_le_one_of_lookup_reverse (hdistinct : (l.map Prod.snd).Nodup) {ty : Ty}
    (hfirst : l.lookup name = some ty) (hlast : l.reverse.lookup name = some ty) :
    (l.map Prod.fst).count name ≤ 1 := by
  induction l with
  | nil => cases hfirst
  | cons entry l ih =>
      obtain ⟨first, bound⟩ := entry
      rw [List.map_cons, List.nodup_cons] at hdistinct
      rw [lookup_reverse_cons] at hlast
      rw [lookup_cons_eq] at hfirst
      rw [List.map_cons, List.count_cons]
      by_cases hname : name = first
      · obtain rfl := hname
        rw [if_pos rfl, Option.some.injEq] at hfirst
        obtain rfl := hfirst
        -- a further binding of the name would bind it to the same type
        have habsent : name ∉ l.map Prod.fst := by
          intro hmem
          obtain ⟨other, hother⟩ := exists_lookup_reverse hmem
          rw [hother, Option.some_or] at hlast
          obtain rfl := Option.some.inj hlast
          have hentry := List.mem_reverse.mp (mem_of_lookup hother)
          exact hdistinct.1 (List.mem_map_of_mem hentry)
        rw [List.count_eq_zero.mpr habsent]
        simp
      · rw [if_neg hname] at hfirst hlast
        rw [Option.or_none] at hlast
        have hne : (first == name) = false := beq_eq_false_iff_ne.mpr fun heq => hname heq.symm
        simpa [hne] using ih hdistinct.2 hfirst hlast

end Bindings

/-! ## Scopes -/

/-- The scope with some names bound, one after another. -/
def Scope.bindAll (s : Scope) (bindings : List (String × Ty)) : Scope :=
  bindings.foldl (fun s binding => s.bind binding.1 binding.2) s

/-- Later bindings stand in front of earlier ones. -/
theorem Scope.bind_all_eq (s : Scope) (bindings : List (String × Ty)) :
    s.bindAll bindings = { s with types := bindings.reverse ++ s.types } := by
  unfold bindAll
  induction bindings generalizing s with
  | nil => rfl
  | cons binding bindings ih =>
      rw [List.foldl_cons, ih, bind, List.reverse_cons, List.append_assoc, List.singleton_append]

/-- The scope with some names bound as parameters: each denotes itself. -/
def Scope.bindSelves (s : Scope) (names : List String) : Scope :=
  s.bindAll (names.map fun name => (name, .param name))

/-- A name denotes its last binding, or what it denoted before. -/
theorem Scope.lookup_bind_all (s : Scope) (bindings : List (String × Ty)) (name : String) :
    (s.bindAll bindings).types.lookup name =
      (bindings.reverse.lookup name).or (s.types.lookup name) := by
  rw [bind_all_eq, List.lookup_append]

/-- Names that are not bound denote what they denoted before. -/
theorem Scope.lookup_bind_all_of_not_mem {s : Scope} {bindings : List (String × Ty)} {name : String}
    (h : name ∉ bindings.map Prod.fst) :
    (s.bindAll bindings).types.lookup name = s.types.lookup name := by
  rw [lookup_bind_all, lookup_reverse_eq_none h, Option.none_or]

/-- A name that is bound as a parameter denotes itself. -/
theorem Scope.lookup_bind_selves {s : Scope} {names : List String} {name : String}
    (h : name ∈ names) : (s.bindSelves names).types.lookup name = some (.param name) := by
  have hkey : name ∈ (names.map fun name => (name, Ty.param name)).map Prod.fst := by
    rw [List.map_map]
    exact List.mem_map.mpr ⟨name, h, rfl⟩
  obtain ⟨ty, hty⟩ := exists_lookup_reverse hkey
  obtain ⟨other, -, heq⟩ := List.mem_map.mp (List.mem_reverse.mp (mem_of_lookup hty))
  obtain ⟨rfl, rfl⟩ := Prod.mk.inj heq
  rw [bindSelves, lookup_bind_all, hty, Option.some_or]

/-- Names that are not parameters denote what they denoted before. -/
theorem Scope.lookup_bind_selves_of_not_mem {s : Scope} {names : List String} {name : String}
    (h : name ∉ names) : (s.bindSelves names).types.lookup name = s.types.lookup name := by
  refine lookup_bind_all_of_not_mem ?_
  rw [List.map_map]
  intro hmem
  obtain ⟨other, hother, rfl⟩ := List.mem_map.mp hmem
  exact h hother

/-! ## What is written in a scope -/

/-- What passes from the parts of a type to the type, and holds of everything that is bound, holds
of every type that is written. -/
theorem TypeTree.lower_induction {s : Scope} {P : Ty → Prop}
    (hparts : ∀ t, (∀ name, t ≠ .param name) → (∀ u ∈ t.parts, P u) → P t)
    (hscope : ∀ name ty, s.types.lookup name = some ty → P ty) {tree : TypeTree} {ty : Ty}
    (h : tree.lower s = .ok ty) : P ty := by
  have hall : ∀ {trees : List TypeTree} {tys : List Ty},
      (∀ tree ∈ trees, ∀ {ty}, tree.lower s = .ok ty → P ty) →
        lowerTypes s trees = .ok tys → ∀ ty ∈ tys, P ty := by
    intro trees tys htrees htys ty hty
    rw [lower_types_eq_map_m] at htys
    obtain ⟨tree, htree, hlower⟩ := Outcome.of_mem_map_m htys hty
    exact htrees tree htree hlower
  have hleaf : ∀ t : Ty, (∀ name, t ≠ .param name) → t.parts = [] → P t :=
    fun t ht hnil => hparts t ht (by simp [hnil])
  induction tree using TypeTree.args_induction generalizing ty with
  | unit | never =>
      cases h
      exact hleaf _ (by simp [Ty.unit]) rfl
  | tuple elems ih =>
      simp only [TypeTree.lower, Outcome.bind_eq_ok, Outcome.pure_eq_ok] at h
      obtain ⟨tys, htys, rfl⟩ := h
      exact hparts _ (by simp) (hall ih htys)
  | ref mutable pointee ih =>
      simp only [TypeTree.lower, Outcome.bind_eq_ok, Outcome.pure_eq_ok] at h
      obtain ⟨inner, hinner, rfl⟩ := h
      exact hparts _ (by simp) (List.forall_mem_singleton.mpr (ih hinner))
  | fnPtr inputs output hinputs houtput =>
      simp only [TypeTree.lower, Outcome.bind_eq_ok, Outcome.pure_eq_ok] at h
      obtain ⟨tys, htys, result, hresult, rfl⟩ := h
      exact hparts _ (by simp) (List.forall_mem_cons.mpr ⟨houtput hresult, hall hinputs htys⟩)
  | fnDef path args hargs =>
      simp only [TypeTree.lower, Outcome.bind_eq_ok, Outcome.pure_eq_ok] at h
      obtain ⟨segments, -, tys, htys, rfl⟩ := h
      exact hparts _ (by simp) (hall hargs htys)
  | named region path args hargs =>
      obtain ⟨tys, segments, htys, -, ⟨name, rfl, hsingle, -⟩ | ⟨-, rfl⟩⟩ :=
        named_lower_eq_ok.mp h
      · rcases Scope.single_eq_some hsingle with hbound | ⟨-, rfl⟩
        · exact hscope name ty hbound
        · exact hleaf _ (by simp) rfl
      · exact hparts _ (by simp) (hall hargs htys)

/-- A type that is written where everything in scope is concrete is concrete itself. -/
theorem TypeTree.lower_concrete {s : Scope}
    (hscope : ∀ name ty, s.types.lookup name = some ty → ty.hasParam = false) {tree : TypeTree}
    {ty : Ty} (h : tree.lower s = .ok ty) : ty.hasParam = false :=
  lower_induction (fun _ ht hparts => Ty.has_param_eq_false_iff.mpr ⟨ht, hparts⟩) hscope h

end MirAudit.Source
