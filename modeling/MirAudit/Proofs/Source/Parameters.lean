import MirAudit.Proofs.Source.Fill
import MirAudit.Proofs.Source.Load
import MirAudit.Proofs.Source.Towers

/-!
# The parameters of the functions of a text

A signature is rejected if it writes a parameter twice, but the implicit `Self` of a method of a
trait is put in front of what is written afterwards. So exactly the methods of traits that write a
parameter `Self` have a parameter twice, and an instance of such a method ignores one of its
arguments: `params_distinct_iff`.
-/

namespace MirAudit

/-! ## Arguments by place -/

/-- The substitution of every instance maps the parameter at each place to the argument at that
place. -/
def FnDecl.MapsByPlace (fn : FnDecl) : Prop :=
  ∀ args : List Ty, args.length = fn.paramNames.length →
    ∃ s, Subst.of fn.paramNames args = .ok s ∧
      ∀ (i : Nat) (name : String) (arg : Ty),
        fn.paramNames[i]? = some name → args[i]? = some arg → s.lookup name = some arg

/-- Where all names are different, each is found at its own place. -/
theorem lookup_zip_of_nodup {names : List String} {args : List Ty} (h : names.Nodup) {i : Nat}
    {name : String} {arg : Ty} (hname : names[i]? = some name) (harg : args[i]? = some arg) :
    (names.zip args).lookup name = some arg := by
  induction names generalizing args i with
  | nil => cases hname
  | cons first names ih =>
      cases args with
      | nil => cases harg
      | cons ty args =>
          rw [List.nodup_cons] at h
          rw [List.zip_cons_cons, Source.lookup_cons_eq]
          cases i with
          | zero =>
              rw [if_pos (Option.some.inj hname).symm]
              exact harg
          | succ i =>
              have hmem : name ∈ names := List.mem_of_getElem? hname
              have hne : name ≠ first := fun heq => h.1 (heq ▸ hmem)
              rw [if_neg hne]
              exact ih h.2 hname harg

/-- The substitutions map by place exactly if no two parameters have the same name. -/
theorem FnDecl.maps_by_place_iff {fn : FnDecl} : fn.MapsByPlace ↔ fn.paramNames.Nodup := by
  constructor
  · intro h
    -- arguments that all differ tell the places of a name apart
    obtain ⟨s, -, hs⟩ := h ((List.range fn.paramNames.length).map Ty.tower) (by simp)
    rw [List.nodup_iff_getElem?_ne_getElem?]
    intro i j hij hj heq
    have htower : ∀ k < fn.paramNames.length,
        ((List.range fn.paramNames.length).map Ty.tower)[k]? = some (.tower k) := by
      intro k hk
      rw [List.getElem?_map, List.getElem?_range hk]
      rfl
    have hfirst := hs i _ _ (heq.trans (List.getElem?_eq_getElem hj)) (htower i (hij.trans hj))
    have hsecond := hs j _ _ (List.getElem?_eq_getElem hj) (htower j hj)
    have hsame := Ty.tower_injective (Option.some.inj (hfirst.symm.trans hsecond))
    omega
  · intro h args hlength
    exact ⟨⟨fn.paramNames.zip args⟩, if_pos hlength.symm, fun i name arg hname harg =>
      lookup_zip_of_nodup h hname harg⟩

namespace Source

/-! ## Written parameters -/

/-- Nothing is reported of parameters whose names differ from each other and from those that
occurred before. -/
theorem duplicate_param_eq_none {seen : List String} {trees : List (Spanned ParamTree)} :
    duplicateParam? seen trees = none ↔
      (trees.map fun tree => tree.value.name.string).Nodup ∧
        ∀ tree ∈ trees, tree.value.name.string ∉ seen := by
  induction trees generalizing seen with
  | nil => simp [duplicateParam?]
  | cons tree trees ih =>
      rw [duplicateParam?, List.map_cons, List.nodup_cons, List.forall_mem_cons]
      by_cases hseen : tree.value.name.string ∈ seen
      · simp [hseen]
      · simp only [hseen, if_false, not_false_eq_true, true_and, ih, List.mem_cons, not_or,
          List.mem_map, not_exists, not_and]
        constructor
        · rintro ⟨hdistinct, hfresh⟩
          exact ⟨⟨fun other hother => (hfresh other hother).1, hdistinct⟩,
            fun other hother => (hfresh other hother).2⟩
        · rintro ⟨⟨hfirst, hdistinct⟩, hfresh⟩
          exact ⟨hdistinct, fun other hother => ⟨hfirst other hother, hfresh other hother⟩⟩

variable {l : Loader} {item : Spanned ItemTree} {src : FnSource} {fn : FnDecl}

/-- The parameters of a function are the implicit ones and those that are written, and the written
ones differ. -/
theorem FnSource.lower_params (h : src.lower = .ok fn) :
    fn.paramNames = src.params ∧ src.written.Nodup ∧ fn.traitDef = src.traitDef := by
  obtain ⟨sig, scope, body, hsig, -, rfl⟩ := FnSource.lower_eq_ok.mp h
  obtain ⟨generics, inputs, output, hgenerics, hdistinct, -, -, -, rfl⟩ :=
    SignatureTree.lower_eq_ok.mp hsig
  refine ⟨?_, (duplicate_param_eq_none.mp hdistinct).1, rfl⟩
  show (src.implicit ++ generics).map GenericParam.name = src.params
  rw [List.map_append, FnSource.names_of_generics hgenerics]
  rfl

/-- Only the methods of traits have an implicit parameter, and it is `Self`. -/
theorem Declares.implicit_cases (h : Declares l item src) :
    src.implicit = [] ∧ src.traitDef = none ∨
      src.implicit = [{ name := "Self" }] ∧ src.traitDef.isSome = true := by
  cases h with
  | ofTrait => exact Or.inr ⟨rfl, rfl⟩
  | ofCrate | foreign | ofImpl | free => exact Or.inl ⟨rfl, rfl⟩

/-- A function has a parameter twice exactly if it is a method of a trait that writes `Self`. -/
theorem Declares.nodup_params_iff (h : Declares l item src) (hlower : src.lower = .ok fn) :
    fn.paramNames.Nodup ↔ (fn.traitDef.isSome = true → "Self" ∉ src.written) := by
  obtain ⟨hparams, hwritten, htrait⟩ := FnSource.lower_params hlower
  rw [hparams, htrait, FnSource.params]
  rcases h.implicit_cases with ⟨himplicit, htrait⟩ | ⟨himplicit, htrait⟩
  · simp [himplicit, htrait, hwritten]
  · simp [himplicit, htrait, hwritten]

/-- The item is a trait with a method that writes a parameter `Self`. -/
def redeclaresSelf (item : Spanned ItemTree) : Bool :=
  match item.value with
  | .trait _ methods => methods.any fun method =>
      method.value.signature.generics.any fun param => param.value.name.string == "Self"
  | _ => false

theorem redeclares_self_iff :
    redeclaresSelf item = true ↔
      ∃ src, Declares l item src ∧ src.traitDef.isSome = true ∧ "Self" ∈ src.written := by
  constructor
  · intro h
    obtain ⟨value, region⟩ := item
    cases value with
    | trait name methods =>
        obtain ⟨method, hmethod, h⟩ := List.any_eq_true.mp h
        obtain ⟨param, hparam, h⟩ := List.any_eq_true.mp h
        exact ⟨_, .ofTrait hmethod, rfl, List.mem_map.mpr ⟨param, hparam, beq_iff_eq.mp h⟩⟩
    | crate | externCrate | externFn | struct | impl | fn => cases h
  · rintro ⟨src, hdeclares, htrait, hself⟩
    cases hdeclares with
    | ofTrait hmethod =>
        obtain ⟨param, hparam, h⟩ := List.mem_map.mp hself
        exact List.any_eq_true.mpr ⟨_, hmethod, List.any_eq_true.mpr ⟨param, hparam, by simp [h]⟩⟩
    | ofCrate | foreign | ofImpl | free => cases htrait

/-- In an accepted text the parameters of every function have different names exactly if no method
of a trait writes a parameter `Self`, and those of one function exactly if it is not such a method.
Exactly then the substitutions of all its instances, which are those that make their bodies, map
the parameter at each place to the argument at that place. -/
theorem params_distinct_iff {file : Option String} {text : List Char} {p : Program}
    (h : loadText file text = .ok p) :
    ∃ items, readText text = .ok items ∧
      ((∀ id fn, p.fnDecl id = some fn → fn.paramNames.Nodup) ↔
        ∀ item ∈ items, redeclaresSelf item = false) ∧
      ∀ id fn, p.fnDecl id = some fn →
        (fn.paramNames.Nodup ↔ (fn.traitDef.isSome = true → "Self" ∉ fn.paramNames.tail)) ∧
        (fn.MapsByPlace ↔ fn.paramNames.Nodup) ∧
        ∀ args s, Subst.of fn.paramNames args = .ok s →
          p.bodyOf ⟨id, args⟩ =
            .ok (if fn.isExtern then none else fn.body.map (Body.subst s)) := by
  obtain ⟨items, l, hread, -, hp⟩ := loaded_of_text h
  refine ⟨items, hread, ?_, fun id fn hfn => ⟨?_, FnDecl.maps_by_place_iff, ?_⟩⟩
  · constructor
    · intro hall item hitem
      rw [← Bool.not_eq_true, redeclares_self_iff (l := l)]
      rintro ⟨src, hdeclares, htrait, hself⟩
      obtain ⟨fn, hlower, hfn⟩ := hp.entered hitem hdeclares
      have htraitDef := (FnSource.lower_params hlower).2.2
      exact (hdeclares.nodup_params_iff hlower).mp (hall _ fn hfn) (htraitDef ▸ htrait) hself
    · intro hnone id fn hfn
      obtain ⟨item, hitem, src, hdeclares, hlower⟩ := hp.found hfn
      have htraitDef := (FnSource.lower_params hlower).2.2
      refine (hdeclares.nodup_params_iff hlower).mpr fun htrait hself => ?_
      have hredeclares := redeclares_self_iff.mpr ⟨src, hdeclares, htraitDef ▸ htrait, hself⟩
      rw [hnone item hitem] at hredeclares
      cases hredeclares
  · obtain ⟨item, -, src, hdeclares, hlower⟩ := hp.found hfn
    obtain ⟨hparams, -, htraitDef⟩ := FnSource.lower_params hlower
    rw [hdeclares.nodup_params_iff hlower, hparams, htraitDef, FnSource.params]
    rcases hdeclares.implicit_cases with ⟨-, htrait⟩ | ⟨himplicit, -⟩
    · simp [htrait]
    · rw [himplicit]
      exact Iff.rfl
  · intro args s hs
    have hlength : fn.paramNames.length = args.length := by
      by_contra hne
      rw [Subst.of, if_neg hne] at hs
      cases hs
    obtain rfl : (⟨fn.paramNames.zip args⟩ : Subst) = s := by
      rw [Subst.of, if_pos hlength] at hs
      exact Except.ok.inj hs
    refine Program.body_of_eq hfn ?_
    rw [← hlength, FnDecl.paramNames, List.length_map]

/-- A trait whose method has a parameter behind the implicit one. -/
def pickMethodText : String :=
  "trait Pick \x7b
    fn pick<T>(Self, T) -> T \x7b
        let _0: T;
        let _1: Self;
        let _2: T;
        bb0: \x7b _0 = move _2; return; \x7d
    \x7d
\x7d
"

set_option maxRecDepth 20000 in
/-- The parameters of the method differ, so that each has its argument in every instance. -/
theorem params_distinct_pick :
    ∃ p items fn, loadText none pickMethodText.toList = .ok p ∧
      readText pickMethodText.toList = .ok items ∧ (∀ item ∈ items, redeclaresSelf item = false) ∧
      p.fnDecl ⟨"main", "Pick::pick"⟩ = some fn ∧ fn.paramNames = ["Self", "T"] ∧
      fn.MapsByPlace := by
  obtain ⟨p, hload, htest⟩ : ∃ p, loadText none pickMethodText.toList = .ok p ∧
      ((p.fnDecl ⟨"main", "Pick::pick"⟩).any fun fn =>
        decide (fn.paramNames = ["Self", "T"])) = true :=
    exists_of_load_chars (by decide +kernel)
  obtain ⟨others, hothers, hnone⟩ : ∃ items, readText pickMethodText.toList = .ok items ∧
      items.all (fun item => !redeclaresSelf item) = true :=
    exists_of_read_chars (by decide +kernel)
  obtain ⟨items, hread, hall, hfns⟩ := params_distinct_iff hload
  obtain rfl := Except.ok.inj (hothers.symm.trans hread)
  have hclear : ∀ item ∈ others, redeclaresSelf item = false := by simpa using hnone
  rw [Option.any_eq_true] at htest
  obtain ⟨fn, hfn, hparams⟩ := htest
  obtain ⟨-, hmaps, -⟩ := hfns _ fn hfn
  exact ⟨p, others, fn, hload, hread, hclear, hfn, of_decide_eq_true hparams,
    hmaps.mpr (hall.mpr hclear _ fn hfn)⟩

/-- A trait whose method writes a parameter with the name of the implicit one. -/
def twoSelvesText : String :=
  "trait Pick \x7b
    fn pick<Self>(Self) \x7b
        let _0: ();
        let _1: Self;
        bb0: \x7b return; \x7d
    \x7d
\x7d
"

set_option maxRecDepth 20000 in
/-- The method has the parameter `Self` twice. Its instance at two types is made with a substitution
that maps the second parameter to the first type, and the body has no place for the second one. -/
theorem second_self_ignored :
    ∃ p fn s body, loadText none twoSelvesText.toList = .ok p ∧
      p.fnDecl ⟨"main", "Pick::pick"⟩ = some fn ∧ fn.paramNames = ["Self", "Self"] ∧
      ¬ fn.paramNames.Nodup ∧
      (p.resolve ⟨"main", "Pick::pick"⟩ [.scalar "i32", .scalar "bool"]).1 =
        .ok ⟨⟨"main", "Pick::pick"⟩, [.scalar "i32", .scalar "bool"]⟩ ∧
      Subst.of fn.paramNames [.scalar "i32", .scalar "bool"] = .ok s ∧
      s.lookup "Self" = some (.scalar "i32") ∧
      p.bodyOf ⟨⟨"main", "Pick::pick"⟩, [.scalar "i32", .scalar "bool"]⟩ = .ok (some body) ∧
      body.types = [.unit, .scalar "i32"] := by
  obtain ⟨p, hload, htest⟩ : ∃ p, loadText none twoSelvesText.toList = .ok p ∧
      (((p.fnDecl ⟨"main", "Pick::pick"⟩).any fun fn =>
          decide (fn.paramNames = ["Self", "Self"])) &&
        decide ((p.resolve ⟨"main", "Pick::pick"⟩ [.scalar "i32", .scalar "bool"]).1 =
          .ok ⟨⟨"main", "Pick::pick"⟩, [.scalar "i32", .scalar "bool"]⟩) &&
        (p.bodyOf ⟨⟨"main", "Pick::pick"⟩, [.scalar "i32", .scalar "bool"]⟩).toOption.any
          fun body? => body?.any fun body =>
            decide (body.types = [.unit, .scalar "i32"])) = true :=
    exists_of_load_chars (by decide +kernel)
  simp only [Bool.and_eq_true, Option.any_eq_true, decide_eq_true_eq] at htest
  obtain ⟨⟨⟨fn, hfn, hparams⟩, hresolve⟩, body?, hbody, body, rfl, htypes⟩ := htest
  rw [Outcome.to_option_eq_some] at hbody
  refine ⟨p, fn, ⟨[("Self", .scalar "i32"), ("Self", .scalar "bool")]⟩, body, hload, hfn, hparams,
    ?_, hresolve, ?_, rfl, hbody, htypes⟩
  · rw [hparams]
    decide
  · rw [hparams]
    rfl

end Source

end MirAudit
