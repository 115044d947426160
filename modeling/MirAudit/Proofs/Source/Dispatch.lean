import MirAudit.Proofs.Source.Impls
import MirAudit.Proofs.Source.Resolved

/-!
# Dispatch in accepted texts

A method of a trait goes to the method of the same name in the impl of just that trait for just that
type, and else to the body that the trait provides: `dispatch_exact`. Impls are found by the trait
and the type, not by what they print as. The name of a method is what follows the last separator of
its path, however many separators stand in front of it. And since a text is rejected where two
functions have one path, no other item declares the function that is found (`eq_of_def_id`).
-/

namespace MirAudit

/-! ## Names of methods -/

namespace DefId

open lastSegment (hasSeparator)

/-- A text with two colons in it has a separator. -/
theorem has_separator_append (before behind : List Char) :
    hasSeparator (before ++ ':' :: ':' :: behind) = true := by
  induction before with
  | nil => rfl
  | cons c before ih =>
      rw [List.cons_append]
      unfold hasSeparator
      split
      next => rfl
      next heq =>
        obtain ⟨-, rfl⟩ := List.cons.inj heq
        exact ih
      next heq => cases heq

theorem has_separator_of_not_mem (c : Char) {cs : List Char} (h : ':' ∉ cs) :
    hasSeparator (c :: cs) = false := by
  induction cs generalizing c with
  | nil =>
      unfold hasSeparator
      split
      next heq => cases heq
      next heq =>
        obtain ⟨-, rfl⟩ := List.cons.inj heq
        rfl
      next heq => rfl
  | cons d cs ih =>
      obtain ⟨hd, hcs⟩ := not_or.mp (mt List.mem_cons.mpr h)
      unfold hasSeparator
      split
      next heq =>
        obtain ⟨-, heq⟩ := List.cons.inj heq
        exact absurd (List.cons.inj heq).1.symm hd
      next heq =>
        obtain ⟨-, rfl⟩ := List.cons.inj heq
        exact ih d hcs
      next heq => rfl

/-- The last segment is what stands behind the last separator. -/
theorem last_segment_append (before : List Char) {cs : List Char} (h : ':' ∉ cs) :
    lastSegment (before ++ ':' :: ':' :: cs) = cs := by
  induction before with
  | nil =>
      rw [List.nil_append, lastSegment, if_neg]
      rw [has_separator_of_not_mem _ h]
      exact Bool.false_ne_true
  | cons c before ih =>
      rw [List.cons_append]
      unfold lastSegment
      rw [if_pos (has_separator_append before cs), ih]

end DefId

namespace Source

open Registration

section Declared

variable {l : Loader} {item : Spanned ItemTree} {src : FnSource} {traitDef : DefId}

/-- The name of a method is its own, whatever it is a method of. -/
theorem name_method {method : String} (owner : String) (h : IsName method.toList) :
    (l.scope.localDef (methodPath owner method)).name = method := by
  have hcolon : ':' ∉ method.toList := fun hmem => by
    have hchar := h.word.name_chars ':' hmem
    cases hchar
  have hpath : (methodPath owner method).toList = owner.toList ++ ':' :: ':' :: method.toList := by
    simp [methodPath]
  rw [DefId.name, Scope.localDef, hpath, DefId.last_segment_append _ hcolon, String.ofList_toList]

/-- A method of a trait is named as its declaration says. -/
theorem Declares.method_name (h : Declares l item src) (hitem : item.value.Legible)
    (htrait : src.traitDef = some traitDef) : src.defId.name = src.signature.name.string := by
  cases h with
  | ofTrait htree => exact name_method _ (is_name_string (hitem.2 _ htree).1.1)
  | ofCrate | foreign | ofImpl | free => cases htrait

/-- A method of a trait is never extern. -/
theorem Declares.not_extern (h : Declares l item src) (htrait : src.traitDef = some traitDef) :
    src.isExtern = false := by
  cases h with
  | ofTrait => rfl
  | ofCrate | foreign | ofImpl | free => cases htrait

end Declared

/-! ## One item for each function -/

section Items

variable {l : Loader} {item other : Spanned ItemTree} {src src' : FnSource} {fns : List FnDecl}
  {decl? : Option Registration} {items : List (Spanned ItemTree)}
  {rss : List (List Registration)}

/-- What an item declares is among the functions that it registers. -/
theorem Enlists.mem_def_ids (h : Enlists l item fns decl?) (hdeclares : Declares l item src) :
    src.defId ∈ fns.map FnDecl.defId := by
  cases h with
  | crate | struct => cases hdeclares
  | externCrate hall =>
      cases hdeclares with
      | ofCrate htree =>
          rw [FnSource.def_ids hall]
          exact List.mem_map_of_mem htree
  | trait hall =>
      cases hdeclares with
      | ofTrait htree =>
          rw [FnSource.def_ids hall]
          exact List.mem_map_of_mem htree
  | impl htrait hself hall =>
      cases hdeclares with
      | ofImpl htrait' hself' htree =>
          obtain rfl := Except.ok.inj (htrait.symm.trans htrait')
          obtain rfl := Except.ok.inj (hself.symm.trans hself')
          rw [FnSource.def_ids hall]
          exact List.mem_map_of_mem htree
  | externFn hlower =>
      cases hdeclares
      exact List.mem_singleton.mpr (FnSource.lower_fits hlower).defId.symm
  | fn hlower =>
      cases hdeclares
      exact List.mem_singleton.mpr (FnSource.lower_fits hlower).defId.symm

theorem mem_def_ids_of_declares {rs : List Registration} (h : registrations l item = .ok rs)
    (hdeclares : Declares l item src) : src.defId ∈ (rs.filterMap fn?).map FnDecl.defId := by
  obtain ⟨fns, entry, decl?, henlists, rfl⟩ := exists_enlists h
  rw [henlists.filter_map_fn entry]
  exact henlists.mem_def_ids hdeclares

/-- What an item declares is registered among all definitions. -/
theorem mem_all_def_ids (h : items.mapM (registrations l) = .ok rss) (hitem : item ∈ items)
    (hdeclares : Declares l item src) :
    src.defId ∈ (rss.flatten.filterMap fn?).map FnDecl.defId := by
  obtain ⟨rs, hrs, hregisters⟩ := Outcome.exists_of_map_m h hitem
  have hsublist := (List.sublist_flatten_of_mem hrs).filterMap fn?
  exact (hsublist.map _).subset (mem_def_ids_of_declares hregisters hdeclares)

/-- Where functions have distinct identities, no two items declare functions of one identity. -/
theorem eq_of_def_id (h : items.mapM (registrations l) = .ok rss)
    (hdistinct : ((rss.flatten.filterMap fn?).map FnDecl.defId).Nodup) (hitem : item ∈ items)
    (hother : other ∈ items) (hdeclares : Declares l item src) (hdeclares' : Declares l other src')
    (hsame : src.defId = src'.defId) : item = other := by
  rw [Outcome.map_m_eq_ok] at h
  induction h with
  | nil => cases hitem
  | cons hrs htail ih =>
      rw [List.flatten_cons, List.filterMap_append, List.map_append] at hdistinct
      obtain ⟨-, hbehind, hapart⟩ := List.nodup_append.mp hdistinct
      have hall := Outcome.map_m_eq_ok.mpr htail
      -- the first item and one behind it would both register the identity
      rcases List.mem_cons.mp hitem with rfl | hmem <;>
        rcases List.mem_cons.mp hother with rfl | hmem'
      · rfl
      · exact absurd hsame (hapart _ (mem_def_ids_of_declares hrs hdeclares) _
          (mem_all_def_ids hall hmem' hdeclares'))
      · exact absurd hsame.symm (hapart _ (mem_def_ids_of_declares hrs hdeclares') _
          (mem_all_def_ids hall hmem hdeclares))
      · exact ih hbehind hmem hmem'

end Items

/-! ## Impls -/

/-- The item is an impl of the trait for the type, and declares its method of the given name. -/
inductive Implements (l : Loader) (traitDef : DefId) (selfTy : Ty) (method : String) :
    Spanned ItemTree → FnSource → Prop
  | of_impl {region path selfTree methods tree} :
      lowerDef l.scope path = .ok traitDef → selfTree.lower l.scope = .ok selfTy →
      tree ∈ methods → tree.value.signature.name.string = method →
      Implements l traitDef selfTy method ⟨.impl path selfTree methods, region⟩
        (.ofImpl l (implSegment selfTy traitDef) selfTy tree)

section Impls

variable {l : Loader} {item : Spanned ItemTree} {items : List (Spanned ItemTree)}
  {rss : List (List Registration)} {p : Program} {impl : TraitImpl} {src : FnSource}
  {traitDef target : DefId} {selfTy : Ty} {method : String}

/-- An item that implements a method declares a function. -/
theorem Implements.declares (h : Implements l traitDef selfTy method item src) :
    Declares l item src := by
  cases h with
  | of_impl htrait hself htree _ => exact .ofImpl htrait hself htree

/-- An item that implements a method declares an impl of the trait for the type. -/
theorem Implements.exists_impl (h : Implements l traitDef selfTy method item src) :
    ∃ impl, DeclaresImpl l item impl ∧ impl.key = (traitDef, selfTy) := by
  cases h with
  | of_impl htrait hself _ _ => exact ⟨_, .of_impl htrait hself, rfl⟩

/-- The identity of a method of an impl is that of the type, the trait and the name. -/
theorem Implements.def_id (h : Implements l traitDef selfTy method item src) :
    src.defId = l.scope.localDef (methodPath (implSegment selfTy traitDef) method) := by
  cases h with
  | of_impl _ _ _ hname => exact congrArg (l.scope.localDef <| methodPath _ ·) hname

/-- What an impl has for a method is a function that the item declares. -/
theorem DeclaresImpl.exists_of_method (h : DeclaresImpl l item impl)
    (hmethod : impl.method? method = some target) :
    ∃ src, Implements l impl.traitDef impl.selfTy method item src ∧ src.defId = target := by
  cases h with
  | of_impl htrait hself =>
      obtain ⟨before, behind, hmethods, -⟩ := List.lookup_eq_some_iff.mp hmethod
      have hmem : (method, target) ∈ before ++ (method, target) :: behind :=
        List.mem_append_right before List.mem_cons_self
      rw [← hmethods] at hmem
      obtain ⟨tree, htree, hentry⟩ := List.mem_map.mp hmem
      cases hentry
      exact ⟨_, .of_impl htrait hself htree rfl, rfl⟩

/-- An impl names a function for a method exactly if it declares the function under that name. -/
theorem DeclaresImpl.method_iff (h : DeclaresImpl l item impl) :
    impl.method? method = some target ↔
      ∃ src, Implements l impl.traitDef impl.selfTy method item src ∧ src.defId = target := by
  refine ⟨h.exists_of_method, ?_⟩
  rintro ⟨src, himplements, rfl⟩
  -- whichever method of that name comes first, its identity is that of the name
  cases hmethod : impl.method? method with
  | some found =>
      obtain ⟨other, hother, rfl⟩ := h.exists_of_method hmethod
      rw [hother.def_id, himplements.def_id]
  | none =>
      have hnone := List.lookup_eq_none_iff.mp hmethod
      cases h with
      | of_impl htrait hself =>
          cases himplements with
          | of_impl _ _ htree hname =>
              have hdiffers := hnone _ (List.mem_map_of_mem htree)
              rw [hname, bne_self_eq_false] at hdiffers
              cases hdiffers

/-- What the impl for a type gives for a method is what the items declare for it. -/
theorem Entered.impl_method_iff (hp : Entered l items rss p) :
    (∃ impl, p.environment.implMethod? traitDef selfTy method = some (impl, target)) ↔
      ∃ item ∈ items, ∃ src, Implements l traitDef selfTy method item src ∧ src.defId = target := by
  simp only [Environment.implMethod?, Option.bind_eq_bind, Option.bind_eq_some_iff,
    Option.pure_def, Option.some.injEq, Prod.mk.injEq]
  constructor
  · rintro ⟨_, impl, hfind, _, hmethod, rfl, rfl⟩
    obtain ⟨hmem, hkey⟩ := (hp.holds.findImpl _ _ impl).mp hfind
    obtain ⟨item, hitem, hdeclares⟩ := (mem_impls_iff hp.built).mp hmem
    cases hkey
    exact ⟨item, hitem, hdeclares.method_iff.mp hmethod⟩
  · rintro ⟨item, hitem, src, himplements, hid⟩
    obtain ⟨impl, hdeclares, hkey⟩ := himplements.exists_impl
    have hmem := (mem_impls_iff hp.built).mpr ⟨item, hitem, hdeclares⟩
    have hfind := (hp.holds.findImpl traitDef selfTy impl).mpr ⟨hmem, hkey⟩
    cases hkey
    exact ⟨impl, impl, hfind, target, hdeclares.method_iff.mpr ⟨src, himplements, hid⟩, rfl, rfl⟩

end Impls

/-! ## Dispatch -/

/-- The instance is of the function that an item declares, and no other item declares a function of
that identity. -/
structure InstanceFrom (l : Loader) (items : List (Spanned ItemTree)) (p : Program)
    (item : Spanned ItemTree) (src : FnSource) (args : List Ty) (i : Instance) : Prop where
  eq : i = ⟨src.defId, args⟩
  built : ∃ fn, src.lower = .ok fn ∧ p.fnDecl i.defId = some fn
  sole : ∀ other ∈ items, ∀ declared, Declares l other declared → declared.defId = i.defId →
    other = item

section Texts

variable {l : Loader} {items : List (Spanned ItemTree)} {rss : List (List Registration)}
  {p : Program} {item : Spanned ItemTree} {src : FnSource}

/-- An instance of a declared function comes from its item, and from no other. -/
theorem Entered.instance_from (hp : Entered l items rss p) (hitem : item ∈ items)
    (hdeclares : Declares l item src) (args : List Ty) :
    InstanceFrom l items p item src args ⟨src.defId, args⟩ where
  eq := rfl
  built := hp.loaded.entered hitem hdeclares
  sole _ hother _ hdeclares' hsame :=
    eq_of_def_id hp.built hp.consistent.fns hother hitem hdeclares' hdeclares hsame

/-- A method of a trait leads to what an impl declares for it, or to itself. -/
theorem Entered.dispatch_cases (hp : Entered l items rss p) (hitem : item ∈ items)
    (hdeclares : Declares l item src) {traitDef : DefId} (htrait : src.traitDef = some traitDef)
    {selfTy : Ty} {rest : List Ty} {i : Instance}
    (h : p.environment.resolve src.defId (selfTy :: rest) = .ok i) :
    (∃ found ∈ items, ∃ method,
        Implements l traitDef selfTy src.signature.name.string found method ∧
        i = ⟨method.defId, rest⟩) ∨
      (∀ found ∈ items, ∀ method,
        ¬ Implements l traitDef selfTy src.signature.name.string found method) ∧
      i = ⟨src.defId, selfTy :: rest⟩ ∧ ∃ body, p.bodyOf i = .ok (some body) := by
  obtain ⟨fn, hlower, hfn⟩ := hp.loaded.entered hitem hdeclares
  have hfits := FnSource.lower_fits hlower
  have hname := hdeclares.method_name (hp.legible item hitem) htrait
  have hlocal := FnSource.is_extern_of_lower hlower
  rw [hdeclares.not_extern htrait] at hlocal
  rw [← hfits.traitDef] at htrait
  rw [← hfits.defId] at hfn hname h ⊢
  obtain ⟨decl, hdecl, harity, -, -, hcases⟩ := Environment.resolve_eq_ok.mp h
  obtain rfl := Option.some.inj (hfn.symm.trans hdecl)
  rw [htrait] at hcases
  obtain ⟨⟨⟩, -⟩ | ⟨_, ⟨⟩, hdispatch⟩ := hcases
  obtain ⟨_, _, ⟨⟩, hdispatch⟩ := Environment.dispatch_eq_ok.mp hdispatch
  -- what is looked up in the impl is the name in the declaration, not a part of some path
  rw [hname] at hdispatch
  rcases hdispatch with ⟨impl, target, himpl, hresolve⟩ | ⟨hnone, hbody, rfl⟩
  · obtain ⟨found, hfound, method, himplements, rfl⟩ := hp.impl_method_iff.mp ⟨impl, himpl⟩
    obtain ⟨_, -, -, -, rfl⟩ := Environment.resolve_in_impl_eq_ok.mp hresolve
    exact Or.inl ⟨found, hfound, method, himplements, rfl⟩
  · refine Or.inr ⟨fun found hfound method himplements => ?_, rfl, ?_⟩
    · obtain ⟨impl, himpl⟩ := hp.impl_method_iff.mpr ⟨found, hfound, method, himplements, rfl⟩
      rw [hnone] at himpl
      cases himpl
    · obtain ⟨generic, hgeneric⟩ := Option.isSome_iff_exists.mp hbody
      rw [Program.body_of_eq hfn harity, hlocal, hgeneric]
      exact ⟨_, rfl⟩

end Texts

/-- In an accepted text, a method of a trait is resolved to what the impl of this trait for this type
declares for the method, with the arguments behind `Self`. Where no impl does, it is resolved to
itself with all arguments, and has a body. In both cases no other item declares the function. -/
theorem dispatch_exact {file : Option String} {text : List Char} {p : Program}
    (h : loadText file text = .ok p) :
    ∃ items l, readText text = .ok items ∧ l = loaderOf file items ∧
      ∀ item ∈ items, ∀ src, Declares l item src → ∀ traitDef, src.traitDef = some traitDef →
      ∀ q, p.Resolving q → ∀ selfTy rest i, (q.resolve src.defId (selfTy :: rest)).1 = .ok i →
        (∀ found ∈ items, ∀ method,
          Implements l traitDef selfTy src.signature.name.string found method →
          InstanceFrom l items p found method rest i) ∧
        ((∀ found ∈ items, ∀ method,
          ¬ Implements l traitDef selfTy src.signature.name.string found method) →
          InstanceFrom l items p item src (selfTy :: rest) i ∧
            ∃ body, p.bodyOf i = .ok (some body)) := by
  obtain ⟨items, rss, hread, hp⟩ := entered_of_text h
  refine ⟨items, _, hread, rfl, ?_⟩
  intro item hitem src hdeclares traitDef htrait q hq selfTy rest i hanswer
  rw [hp.loaded.resolves_alike q hq] at hanswer
  have hresolve := (Program.resolve_empty_eq_ok hp.loaded.interned).mp hanswer
  rcases hp.dispatch_cases hitem hdeclares htrait hresolve with
    ⟨found, hfound, method, himplements, rfl⟩ | ⟨hnone, rfl, hbody⟩
  · refine ⟨fun other hother target htarget => ?_, fun hnone => ?_⟩
    · rw [himplements.def_id, ← htarget.def_id]
      exact hp.instance_from hother htarget.declares rest
    · exact absurd himplements (hnone found hfound method)
  · refine ⟨fun found hfound method himplements => ?_, fun _ => ?_⟩
    · exact absurd himplements (hnone found hfound method)
    · exact ⟨hp.instance_from hitem hdeclares _, hbody⟩

/-- A trait that provides its method, and the impl for unit. -/
def greetText : String :=
  "trait Greet \x7b
    fn greet(Self) \x7b
        let _0: ();
        let _1: Self;
        bb0: \x7b return; \x7d
    \x7d
\x7d
impl Greet for () \x7b
    fn greet(()) \x7b
        let _0: ();
        let _1: ();
        bb0: \x7b return; \x7d
    \x7d
\x7d
"

/-- The items are a trait of one method, and the impl of one method for unit. -/
def greets (items : List (Spanned ItemTree)) : Bool :=
  match items with
  | [⟨.trait name [given], _⟩, ⟨.impl path selfTree [method], _⟩] =>
    let l := loaderOf none items
    decide (l.scope.localDef name.string = ⟨"main", "Greet"⟩ ∧
      (FnSource.ofTrait l (l.scope.localDef name.string) given).defId = ⟨"main", "Greet::greet"⟩ ∧
      given.value.signature.name.string = "greet" ∧
      method.value.signature.name.string = "greet" ∧
      (lowerDef l.scope path).toOption = some ⟨"main", "Greet"⟩ ∧
      (selfTree.lower l.scope).toOption = some .unit)
  | _ => false

theorem exists_of_greets {items : List (Spanned ItemTree)} {l : Loader}
    (h : greets items = true) (hl : l = loaderOf none items) :
    ∃ trait own impl method, trait ∈ items ∧ impl ∈ items ∧ Declares l trait own ∧
      own.traitDef = some ⟨"main", "Greet"⟩ ∧ own.defId = ⟨"main", "Greet::greet"⟩ ∧
      own.signature.name.string = "greet" ∧
      Implements l ⟨"main", "Greet"⟩ .unit "greet" impl method ∧
      ∀ selfTy, selfTy ≠ .unit → ∀ found ∈ items, ∀ other,
        ¬ Implements l ⟨"main", "Greet"⟩ selfTy "greet" found other := by
  unfold greets at h
  split at h
  next name given region path selfTree method region' =>
    obtain ⟨htrait, hown, hgiven, hmethod, hpath, hself⟩ := of_decide_eq_true h
    rw [Outcome.to_option_eq_some] at hpath hself
    rw [← hl] at htrait hown hpath hself
    refine ⟨_, _, _, _, List.mem_cons_self, List.mem_cons_of_mem _ List.mem_cons_self,
      .ofTrait (List.mem_singleton_self given), congrArg some htrait, hown, hgiven,
      .of_impl hpath hself (List.mem_singleton_self method) hmethod, ?_⟩
    intro selfTy hne found hfound other himplements
    cases himplements with
    | of_impl _ hother =>
        rcases List.mem_cons.mp hfound with hfound | hfound
        · cases hfound
        · cases List.mem_singleton.mp hfound
          exact hne (Except.ok.inj (hother.symm.trans hself))
  next => cases h

set_option maxRecDepth 20000 in
/-- For unit the method is that of the impl, and for a number the one that the trait provides. -/
theorem dispatch_exact_greet :
    ∃ p items l trait own impl method, loadText none greetText.toList = .ok p ∧
      readText greetText.toList = .ok items ∧ l = loaderOf none items ∧
      trait ∈ items ∧ impl ∈ items ∧
      Declares l trait own ∧ own.traitDef = some ⟨"main", "Greet"⟩ ∧
      Implements l ⟨"main", "Greet"⟩ .unit "greet" impl method ∧
      InstanceFrom l items p impl method [] ⟨⟨"main", "<() as Greet>::greet"⟩, []⟩ ∧
      InstanceFrom l items p trait own [.scalar "i32"]
        ⟨⟨"main", "Greet::greet"⟩, [.scalar "i32"]⟩ ∧
      ∃ body, p.bodyOf ⟨⟨"main", "Greet::greet"⟩, [.scalar "i32"]⟩ = .ok (some body) := by
  obtain ⟨p, hload, htest⟩ : ∃ p, loadText none greetText.toList = .ok p ∧
      decide ((p.resolve ⟨"main", "Greet::greet"⟩ [.unit]).1 =
          .ok ⟨⟨"main", "<() as Greet>::greet"⟩, []⟩ ∧
        (p.resolve ⟨"main", "Greet::greet"⟩ [.scalar "i32"]).1 =
          .ok ⟨⟨"main", "Greet::greet"⟩, [.scalar "i32"]⟩) = true :=
    exists_of_load_chars (by decide +kernel)
  obtain ⟨hunit, hnumber⟩ := of_decide_eq_true htest
  obtain ⟨read, hread, hgreets⟩ : ∃ items, readText greetText.toList = .ok items ∧
      greets items = true := exists_of_read_chars (by decide +kernel)
  obtain ⟨items, l, hitems, hl, hdispatch⟩ := dispatch_exact hload
  obtain rfl := Except.ok.inj (hread.symm.trans hitems)
  obtain ⟨trait, own, impl, method, htrait, himpl, hdeclares, hown, hid, hname, himplements,
    hothers⟩ := exists_of_greets hgreets hl
  rw [← hid] at hunit hnumber
  have hgiven := hdispatch trait htrait own hdeclares _ hown p .refl
  rw [hname] at hgiven
  obtain ⟨hprovided, hbody⟩ := (hgiven _ _ _ hnumber).2 (hothers _ nofun)
  rw [hid] at hprovided hbody
  exact ⟨p, read, l, trait, own, impl, method, hload, hread, hl, htrait, himpl, hdeclares, hown,
    himplements, (hgiven _ _ _ hunit).1 impl himpl method himplements, hprovided, hbody⟩

end Source

end MirAudit
