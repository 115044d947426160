import MirAudit.Proofs.Outcome
import MirAudit.Source.Scope

/-!
# The names in a type as written

A path of one segment is looked up by its text. `TypeTree.lookups` lists the names that a tree looks
up, and `TypeTree.flattened` those of them that stand inside a segment `<Type as Trait>`, which
becomes text. Read `lower_congr` first: a tree denotes the same type in two scopes that agree on the
names it looks up.
-/

namespace MirAudit.Source

/-- What passes from the parts of types and segments to the whole holds of all of them. -/
theorem tree_induction {P : TypeTree → Prop} {S : SegmentTree → Prop}
    (unit : P .unit) (tuple : ∀ elems, (∀ elem ∈ elems, P elem) → P (.tuple elems))
    (ref : ∀ mutable pointee, P pointee → P (.ref mutable pointee))
    (fnPtr : ∀ inputs output, (∀ input ∈ inputs, P input) → P output → P (.fnPtr inputs output))
    (fnDef : ∀ path args, (∀ segment ∈ path, S segment) → (∀ arg ∈ args, P arg) →
      P (.fnDef path args))
    (never : P .never)
    (named : ∀ region path args, (∀ segment ∈ path, S segment) → (∀ arg ∈ args, P arg) →
      P (.named region path args))
    (name : ∀ text, S (.name text))
    (qualified : ∀ ty traitPath, P ty → (∀ segment ∈ traitPath, S segment) →
      S (.qualified ty traitPath)) :
    (∀ tree, P tree) ∧ ∀ segment, S segment := by
  obtain ⟨htrees, -, hsegments, -⟩ := TypeTree.lower.mutual_induct P
    (fun path => ∀ segment ∈ path, S segment) S (fun trees => ∀ tree ∈ trees, P tree)
    unit tuple ref fnPtr fnDef never (fun region path args hargs hpath =>
      named region path args hpath hargs) name qualified (by simp)
    (fun tree trees htree htrees => List.forall_mem_cons.mpr ⟨htree, htrees⟩) (by simp)
    (fun segment path hsegment hpath => List.forall_mem_cons.mpr ⟨hsegment, hpath⟩)
  exact ⟨htrees, hsegments⟩

/-- What passes from the types in a type to the type holds of every type; the segments of its paths
are left alone. -/
theorem TypeTree.args_induction {P : TypeTree → Prop} (unit : P .unit)
    (tuple : ∀ elems, (∀ elem ∈ elems, P elem) → P (.tuple elems))
    (ref : ∀ mutable pointee, P pointee → P (.ref mutable pointee))
    (fnPtr : ∀ inputs output, (∀ input ∈ inputs, P input) → P output → P (.fnPtr inputs output))
    (fnDef : ∀ path args, (∀ arg ∈ args, P arg) → P (.fnDef path args))
    (never : P .never)
    (named : ∀ region path args, (∀ arg ∈ args, P arg) → P (.named region path args))
    (tree : TypeTree) : P tree :=
  (tree_induction (S := fun _ => True) unit tuple ref fnPtr (fun path args _ => fnDef path args)
    never (fun region path args _ => named region path args) (fun _ => trivial)
    (fun _ _ _ _ => trivial)).1 tree

/-! ## Lowering -/

variable {s : Scope}

/-- Types are lowered one by one. -/
theorem lower_types_eq_map_m (trees : List TypeTree) :
    lowerTypes s trees = trees.mapM (TypeTree.lower s) := by
  induction trees with
  | nil => rw [lowerTypes, List.mapM_nil]
  | cons tree trees ih => rw [lowerTypes, ih, List.mapM_cons]

theorem length_lower_types {trees : List TypeTree} {tys : List Ty}
    (h : lowerTypes s trees = .ok tys) : tys.length = trees.length := by
  rw [lower_types_eq_map_m, Outcome.map_m_eq_ok] at h
  exact h.length_eq.symm

theorem eq_nil_of_lower_types {trees : List TypeTree} (h : lowerTypes s trees = .ok []) :
    trees = [] := by
  rw [lower_types_eq_map_m, Outcome.map_m_eq_ok] at h
  cases h
  rfl

/-- Segments are lowered one by one. -/
theorem lower_segments_eq_map_m (path : PathTree) :
    lowerSegments s path = path.mapM (SegmentTree.lower s) := by
  induction path with
  | nil => rw [lowerSegments, List.mapM_nil]
  | cons segment path ih => rw [lowerSegments, ih, List.mapM_cons]

/-- What a named type is: what its only segment is bound to, or else nominal. -/
theorem named_lower_eq_ok {region : Region} {path : PathTree} {args : List TypeTree} {ty : Ty} :
    (TypeTree.named region path args).lower s = .ok ty ↔
      ∃ tys segments, lowerTypes s args = .ok tys ∧ lowerSegments s path = .ok segments ∧
        ((∃ name, segments = [name] ∧ s.single? name = some ty ∧ tys = []) ∨
          (∀ name, segments = [name] → s.single? name = none) ∧
            .adt (String.intercalate "::" segments) tys = ty) := by
  simp only [TypeTree.lower, Outcome.bind_eq_ok]
  refine exists_congr fun tys => ?_
  rw [exists_and_left]
  refine and_congr_right fun _ => exists_congr fun segments => and_congr_right fun _ => ?_
  rcases segments with _ | ⟨name, _ | ⟨next, rest⟩⟩
  · simp [Outcome.pure_eq_ok]
  · cases hsingle : s.single? name with
    | none => simp [Outcome.pure_eq_ok, hsingle]
    | some found =>
        cases tys with
        | nil => simp [Outcome.pure_eq_ok, hsingle]
        | cons first others => simp [hsingle, Outcome.not_throw_eq_ok]
  · simp [Outcome.pure_eq_ok]

/-! ## Names -/

/-- The name that a path of one segment looks up. -/
def headLookup (s : Scope) (path : PathTree) : List String :=
  match lowerSegments s path with
  | .ok [name] => [name]
  | _ => []

mutual
/-- The names that a tree looks up, also inside the segments of its paths. -/
def TypeTree.lookups (s : Scope) : TypeTree → List String
  | .unit => []
  | .tuple elems => lookupsAll s elems
  | .ref _ pointee => pointee.lookups s
  | .fnPtr inputs output => lookupsAll s inputs ++ output.lookups s
  | .fnDef path args => pathLookups s path ++ lookupsAll s args
  | .never => []
  | .named _ path args => headLookup s path ++ pathLookups s path ++ lookupsAll s args

/-- The names that some trees look up. -/
def lookupsAll (s : Scope) : List TypeTree → List String
  | [] => []
  | tree :: trees => tree.lookups s ++ lookupsAll s trees

/-- The names that the type and the trait of a segment look up. -/
def SegmentTree.lookups (s : Scope) : SegmentTree → List String
  | .name _ => []
  | .qualified ty traitPath => ty.lookups s ++ pathLookups s traitPath

/-- The names that are looked up inside the segments of a path. -/
def pathLookups (s : Scope) : List SegmentTree → List String
  | [] => []
  | segment :: segments => segment.lookups s ++ pathLookups s segments
end

mutual
/-- The names that a tree looks up inside the segments of its paths. -/
def TypeTree.flattened (s : Scope) : TypeTree → List String
  | .unit => []
  | .tuple elems => flattenedAll s elems
  | .ref _ pointee => pointee.flattened s
  | .fnPtr inputs output => flattenedAll s inputs ++ output.flattened s
  | .fnDef path args => pathLookups s path ++ flattenedAll s args
  | .never => []
  | .named _ path args => pathLookups s path ++ flattenedAll s args

/-- The names that some trees look up inside the segments of their paths. -/
def flattenedAll (s : Scope) : List TypeTree → List String
  | [] => []
  | tree :: trees => tree.flattened s ++ flattenedAll s trees
end

/-- A path looks up its name if it has only this one. -/
theorem mem_head_lookup {path : PathTree} {name : String} :
    name ∈ headLookup s path ↔ lowerSegments s path = .ok [name] := by
  unfold headLookup
  split
  next text htext => simp [htext, eq_comm]
  next hother =>
    simp only [List.not_mem_nil, false_iff]
    exact hother name

theorem mem_lookups_all {trees : List TypeTree} {name : String} :
    name ∈ lookupsAll s trees ↔ ∃ tree ∈ trees, name ∈ tree.lookups s := by
  induction trees with
  | nil => simp [lookupsAll]
  | cons tree trees ih => simp [lookupsAll, ih]

theorem mem_path_lookups {path : PathTree} {name : String} :
    name ∈ pathLookups s path ↔ ∃ segment ∈ path, name ∈ segment.lookups s := by
  induction path with
  | nil => simp [pathLookups]
  | cons segment path ih => simp [pathLookups, ih]

theorem mem_flattened_all {trees : List TypeTree} {name : String} :
    name ∈ flattenedAll s trees ↔ ∃ tree ∈ trees, name ∈ tree.flattened s := by
  induction trees with
  | nil => simp [flattenedAll]
  | cons tree trees ih => simp [flattenedAll, ih]

/-! ## Scopes that agree -/

/-- The two scopes know the same crates. -/
structure Scope.SameCrates (s s' : Scope) : Prop where
  localCrate : s'.localCrate = s.localCrate
  crates : ∀ name, name ∈ s'.crates ↔ name ∈ s.crates

/-- A path names the same definition where the crates are the same. -/
theorem Scope.SameCrates.def_of {s' : Scope} (h : s.SameCrates s') (segments : List String) :
    s'.defOf segments = s.defOf segments := by
  unfold Scope.defOf Scope.localDef
  simp only [h.localCrate, h.crates]

/-- A name denotes the same where it is bound to the same. -/
theorem Scope.single_congr {s' : Scope} {name : String}
    (h : s'.types.lookup name = s.types.lookup name) : s'.single? name = s.single? name := by
  rw [single?, single?, h]

/-- A single name denotes what it is bound to, or else a scalar. -/
theorem Scope.single_eq_some {name : String} {ty : Ty} (h : s.single? name = some ty) :
    s.types.lookup name = some ty ∨ name ∈ Ty.scalarNames ∧ ty = .scalar name := by
  unfold single? at h
  split at h
  next found hfound =>
    cases h
    exact Or.inl hfound
  next =>
    split at h
    next hscalar =>
      cases h
      exact Or.inr ⟨hscalar, rfl⟩
    next => cases h

variable {s' : Scope}

theorem lower_types_congr {trees : List TypeTree}
    (h : ∀ tree ∈ trees, tree.lower s' = tree.lower s) :
    lowerTypes s' trees = lowerTypes s trees := by
  induction trees with
  | nil => rw [lowerTypes, lowerTypes]
  | cons tree trees ih =>
      rw [lowerTypes, lowerTypes, h tree List.mem_cons_self,
        ih fun other hother => h other (List.mem_cons_of_mem tree hother)]

theorem lower_segments_congr {path : PathTree}
    (h : ∀ segment ∈ path, segment.lower s' = segment.lower s) :
    lowerSegments s' path = lowerSegments s path := by
  induction path with
  | nil => rw [lowerSegments, lowerSegments]
  | cons segment path ih =>
      rw [lowerSegments, lowerSegments, h segment List.mem_cons_self,
        ih fun other hother => h other (List.mem_cons_of_mem segment hother)]

/-- Trees and segments denote the same in scopes that agree on the names they look up. -/
theorem lower_congr (hcrates : s.SameCrates s') :
    (∀ tree : TypeTree, (∀ name ∈ tree.lookups s, s'.types.lookup name = s.types.lookup name) →
      tree.lower s' = tree.lower s) ∧
    ∀ segment : SegmentTree,
      (∀ name ∈ segment.lookups s, s'.types.lookup name = s.types.lookup name) →
        segment.lower s' = segment.lower s := by
  refine tree_induction ?unit ?tuple ?ref ?fnPtr ?fnDef ?never ?named ?name ?qualified
  case unit | never | name => intros; rfl
  case tuple =>
    intro elems ih h
    simp only [TypeTree.lookups, mem_lookups_all] at h
    simp only [TypeTree.lower]
    rw [lower_types_congr fun elem helem =>
      ih elem helem fun name hname => h name ⟨elem, helem, hname⟩]
  case ref =>
    intro mutable pointee ih h
    simp only [TypeTree.lower]
    rw [ih h]
  case fnPtr =>
    intro inputs output hinputs houtput h
    simp only [TypeTree.lookups, List.mem_append, mem_lookups_all] at h
    simp only [TypeTree.lower]
    rw [lower_types_congr fun input hinput =>
        hinputs input hinput fun name hname => h name (Or.inl ⟨input, hinput, hname⟩),
      houtput fun name hname => h name (Or.inr hname)]
  case fnDef =>
    intro path args hpath hargs h
    simp only [TypeTree.lookups, List.mem_append, mem_lookups_all, mem_path_lookups] at h
    simp only [TypeTree.lower, hcrates.def_of]
    rw [lower_segments_congr fun segment hsegment =>
        hpath segment hsegment fun name hname => h name (Or.inl ⟨segment, hsegment, hname⟩),
      lower_types_congr fun arg harg =>
        hargs arg harg fun name hname => h name (Or.inr ⟨arg, harg, hname⟩)]
  case named =>
    intro region path args hpath hargs h
    simp only [TypeTree.lookups, List.mem_append, mem_lookups_all, mem_path_lookups] at h
    -- which name the path looks up depends on its text, so the segments come first
    have hsegments : lowerSegments s' path = lowerSegments s path :=
      lower_segments_congr fun segment hsegment => hpath segment hsegment fun name hname =>
        h name (Or.inl (Or.inr ⟨segment, hsegment, hname⟩))
    have htys : lowerTypes s' args = lowerTypes s args :=
      lower_types_congr fun arg harg =>
        hargs arg harg fun name hname => h name (Or.inr ⟨arg, harg, hname⟩)
    have hsingle : ∀ name, lowerSegments s path = .ok [name] →
        s'.single? name = s.single? name := by
      intro name hname
      exact Scope.single_congr (h name (Or.inl (Or.inl (mem_head_lookup.mpr hname))))
    simp only [TypeTree.lower, hsegments, htys]
    cases hpathTexts : lowerSegments s path with
    | error fault => rfl
    | ok segments =>
        rcases segments with _ | ⟨name, _ | ⟨next, rest⟩⟩
        · rfl
        · refine bind_congr fun tys => ?_
          simp only [bind, Except.bind, hsingle name hpathTexts]
        · rfl
  case qualified =>
    intro ty traitPath hty hpath h
    simp only [SegmentTree.lookups, List.mem_append, mem_path_lookups] at h
    simp only [SegmentTree.lower, hcrates.def_of]
    rw [hty fun name hname => h name (Or.inl hname),
      lower_segments_congr fun segment hsegment =>
        hpath segment hsegment fun name hname => h name (Or.inr ⟨segment, hsegment, hname⟩)]

/-! ## Definitions -/

theorem Scope.def_of_in_crate {crate next : String} {rest : List String} (h : crate ∈ s.crates) :
    s.defOf (crate :: next :: rest) = ⟨crate, String.intercalate "::" (next :: rest)⟩ := by
  rw [defOf, if_pos h]

theorem Scope.def_of_single (s : Scope) (name : String) : s.defOf [name] = s.localDef name :=
  congrArg s.localDef String.intercalate_singleton

/-- A path that does not start with a crate is local. -/
theorem Scope.def_of_cases (s : Scope) (texts : List String) :
    (∃ crate next rest, texts = crate :: next :: rest ∧ crate ∈ s.crates) ∨
      s.defOf texts = s.localDef (String.intercalate "::" texts) := by
  rcases texts with _ | ⟨crate, _ | ⟨next, rest⟩⟩
  · exact Or.inr rfl
  · exact Or.inr rfl
  · by_cases hcrate : crate ∈ s.crates
    · exact Or.inl ⟨crate, next, rest, rfl, hcrate⟩
    · rw [Scope.defOf, if_neg hcrate]
      exact Or.inr rfl

end MirAudit.Source
