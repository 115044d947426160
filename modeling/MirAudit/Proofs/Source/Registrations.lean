import MirAudit.Proofs.Program.Agreement
import MirAudit.Proofs.Source.Load
import MirAudit.Proofs.Source.Unplaced

/-!
# What the items of a text register

An item is loaded by building what it declares and then registering it: `run_load_item_eq_ok`. What
is built does not depend on what is registered already, so loading a text is to build all
registrations and to add them one after another: `load_items_eq_ok`. `Enlists` tells apart the
functions that an item registers and what comes behind them.
-/

namespace MirAudit.Source

/-- The registration of a declared function. -/
def FnSource.registrations (src : FnSource) (entry : Bool) : Load (List Registration) :=
  (fun fn => [.fn fn entry]) <$> src.lower

/-- What an item registers, in order. -/
def registrations (l : Loader) (item : Spanned ItemTree) : Load (List Registration) :=
  match item.value with
  | .crate _ => return []
  | .externCrate name signatures =>
    List.flatten <$> signatures.mapM fun tree =>
      (FnSource.ofCrate l name.string tree).registrations false
  | .externFn signature => (FnSource.foreign l item.region signature).registrations false
  | .struct name params =>
    return [.struct
      { defId := l.scope.localDef name.string, params := params.map Token.string,
        span := item.region.span l.file }]
  | .trait name methods => do
    let traitDef := l.scope.localDef name.string
    let fns ← methods.mapM fun tree => (FnSource.ofTrait l traitDef tree).registrations false
    return fns.flatten ++ [.trait
      { defId := traitDef, methods := methods.map fun tree => tree.value.signature.name.string,
        span := item.region.span l.file }]
  | .impl path selfTy methods => do
    let traitDef ← lowerDef l.scope path
    let selfTy ← selfTy.lower l.scope
    let source := FnSource.ofImpl l (implSegment selfTy traitDef) selfTy
    let fns ← methods.mapM fun tree => (source tree).registrations false
    return fns.flatten ++ [.impl
      { defId := l.scope.localDef (implSegment selfTy traitDef), traitDef, selfTy
        methods := methods.map fun tree => (tree.value.signature.name.string, (source tree).defId)
        span := item.region.span l.file }]
  | .fn entry signature body => (FnSource.free l item.region signature body).registrations entry

/-! ## Steps one after another -/

variable {α β : Type} {p q : Program}

/-- A function is registered by lowering it and adding it. -/
theorem FnSource.registrations_eq_ok {src : FnSource} {entry : Bool} :
    (∃ rs, src.registrations entry = .ok rs ∧ AddsAll p q rs) ↔
      ∃ fn, src.lower = .ok fn ∧ p.addFn fn entry = (.ok (), q) := by
  simp only [registrations, Outcome.map_eq_ok]
  constructor
  · intro h
    obtain ⟨_, ⟨fn, hlower, rfl⟩, middle, hadd, rfl⟩ := h
    exact ⟨fn, hlower, hadd⟩
  · intro h
    obtain ⟨fn, hlower, hadd⟩ := h
    exact ⟨_, ⟨fn, hlower, rfl⟩, q, hadd, rfl⟩

/-- Steps that each build registrations and add them do so as a whole. -/
theorem run_for_m_eq_ok {f : α → LoadStep Unit} {g : α → Load (List Registration)} {as : List α}
    (hstep : ∀ a p q, (f a).run p = .ok ((), q) ↔ ∃ rs, g a = .ok rs ∧ AddsAll p q rs) :
    (as.forM f).run p = .ok ((), q) ↔ ∃ rss, as.mapM g = .ok rss ∧ AddsAll p q rss.flatten := by
  induction as generalizing p with
  | nil =>
      show Except.ok ((), p) = Except.ok ((), q) ↔ _
      simp [Outcome.pure_eq_ok, AddsAll]
  | cons a as ih =>
      show (f a >>= fun _ => as.forM f).run p = .ok ((), q) ↔ _
      simp only [LoadStep.run_bind_eq_ok, hstep, ih, List.mapM_cons, Outcome.bind_eq_ok,
        Outcome.pure_eq_ok]
      constructor
      · intro h
        obtain ⟨_, middle, ⟨rs, hrs, hadds⟩, rss, hrss, hmore⟩ := h
        exact ⟨rs :: rss, ⟨rs, hrs, rss, hrss, rfl⟩, adds_all_append.mpr ⟨middle, hadds, hmore⟩⟩
      · intro h
        obtain ⟨_, ⟨rs, hrs, rss, hrss, rfl⟩, hall⟩ := h
        obtain ⟨middle, hadds, hmore⟩ := adds_all_append.mp hall
        exact ⟨(), middle, ⟨rs, hrs, hadds⟩, rss, hrss, hmore⟩

/-- The same of steps that also give a value, which is known beforehand. -/
theorem run_map_m_eq_ok {f : α → LoadStep β} {value : α → β} {g : α → Load (List Registration)}
    {as : List α} {bs : List β}
    (hstep : ∀ a p q b, (f a).run p = .ok (b, q) ↔
      b = value a ∧ ∃ rs, g a = .ok rs ∧ AddsAll p q rs) :
    (as.mapM f).run p = .ok (bs, q) ↔
      bs = as.map value ∧ ∃ rss, as.mapM g = .ok rss ∧ AddsAll p q rss.flatten := by
  induction as generalizing p q bs with
  | nil =>
      rw [List.mapM_nil, LoadStep.run_pure_eq_ok]
      constructor
      · intro h
        obtain ⟨rfl, rfl⟩ := h
        exact ⟨rfl, [], rfl, rfl⟩
      · intro h
        obtain ⟨rfl, _, ⟨⟩, hnone⟩ := h
        exact ⟨rfl, hnone⟩
  | cons a as ih =>
      simp only [List.mapM_cons, LoadStep.run_bind_eq_ok, LoadStep.run_pure_eq_ok, hstep, ih,
        Outcome.bind_eq_ok, Outcome.pure_eq_ok]
      constructor
      · intro h
        obtain ⟨_, middle, ⟨rfl, rs, hrs, hadds⟩, _, _, ⟨rfl, rss, hrss, hmore⟩, rfl, rfl⟩ := h
        exact ⟨rfl, rs :: rss, ⟨rs, hrs, rss, hrss, rfl⟩,
          adds_all_append.mpr ⟨middle, hadds, hmore⟩⟩
      · intro h
        obtain ⟨rfl, _, ⟨rs, hrs, rss, hrss, rfl⟩, hall⟩ := h
        obtain ⟨middle, hadds, hmore⟩ := adds_all_append.mp hall
        exact ⟨value a, middle, ⟨rfl, rs, hrs, hadds⟩, as.map value, q, ⟨rfl, rss, hrss, hmore⟩,
          rfl, rfl⟩

/-! ## Items -/

variable {l : Loader}

/-- A crate is declared exactly if its functions are built and can be added. -/
theorem run_extern_crate_eq_ok {region : Region} {name : Token}
    {signatures : List (Spanned SignatureTree)} :
    (signatures.forM (loadExternSignature l name.string)).run p = .ok ((), q) ↔
      ∃ rs, registrations l ⟨.externCrate name signatures, region⟩ = .ok rs ∧ AddsAll p q rs := by
  have hsignatures : (signatures.forM (loadExternSignature l name.string)).run p = .ok ((), q) ↔
      ∃ rss, (signatures.mapM fun tree =>
        (FnSource.ofCrate l name.string tree).registrations false) = .ok rss ∧
          AddsAll p q rss.flatten :=
    run_for_m_eq_ok fun tree p q => by
      rw [FnSource.load_extern_signature_eq_ok, FnSource.registrations_eq_ok]
  refine hsignatures.trans ?_
  simp only [registrations, Outcome.map_eq_ok]
  constructor
  · intro h
    obtain ⟨rss, hrss, hadds⟩ := h
    exact ⟨_, ⟨rss, hrss, rfl⟩, hadds⟩
  · intro h
    obtain ⟨_, ⟨rss, hrss, rfl⟩, hadds⟩ := h
    exact ⟨rss, hrss, hadds⟩

/-- A trait is loaded exactly if its methods are built and can be added, and the trait behind
them. -/
theorem run_trait_eq_ok {region : Region} {name : Token} {methods : List (Spanned MethodTree)} :
    (loadTrait l region name methods).run p = .ok ((), q) ↔
      ∃ rs, registrations l ⟨.trait name methods, region⟩ = .ok rs ∧ AddsAll p q rs := by
  have hmethods (middle : Program) (names : List String) :
      (methods.mapM (loadTraitMethod l (l.scope.localDef name.string))).run p =
          .ok (names, middle) ↔
        names = methods.map (fun tree => tree.value.signature.name.string) ∧
          ∃ rss, (methods.mapM fun tree =>
            (FnSource.ofTrait l (l.scope.localDef name.string) tree).registrations false) =
              .ok rss ∧ AddsAll p middle rss.flatten :=
    run_map_m_eq_ok fun tree p q b => by
      rw [FnSource.load_trait_method_eq_ok, FnSource.registrations_eq_ok]
  simp only [loadTrait, registrations, LoadStep.run_bind_eq_ok, LoadStep.run_modify_eq_ok,
    hmethods, Outcome.bind_eq_ok, Outcome.pure_eq_ok]
  constructor
  · intro h
    obtain ⟨_, middle, ⟨rfl, rss, hrss, hadds⟩, rfl⟩ := h
    exact ⟨_, ⟨rss, hrss, rfl⟩, adds_all_append.mpr ⟨middle, hadds, _, rfl, rfl⟩⟩
  · intro h
    obtain ⟨_, ⟨rss, hrss, rfl⟩, hall⟩ := h
    obtain ⟨middle, hadds, _, rfl, rfl⟩ := adds_all_append.mp hall
    exact ⟨_, middle, ⟨rfl, rss, hrss, hadds⟩, rfl⟩

/-- An impl is loaded exactly if its trait and its self type denote something, its methods are built
and can be added, and the impl behind them. -/
theorem run_impl_eq_ok {region : Region} {path : PathTree} {selfTree : TypeTree}
    {methods : List (Spanned MethodTree)} :
    (loadImpl l region path selfTree methods).run p = .ok ((), q) ↔
      ∃ rs, registrations l ⟨.impl path selfTree methods, region⟩ = .ok rs ∧ AddsAll p q rs := by
  have hmethods (start middle : Program) (owner : String) (selfTy : Ty)
      (found : List (String × DefId)) :
      (methods.mapM (loadImplMethod l owner selfTy)).run start = .ok (found, middle) ↔
        found = methods.map (fun tree => (tree.value.signature.name.string,
          (FnSource.ofImpl l owner selfTy tree).defId)) ∧
          ∃ rss, (methods.mapM fun tree =>
            (FnSource.ofImpl l owner selfTy tree).registrations false) = .ok rss ∧
              AddsAll start middle rss.flatten :=
    run_map_m_eq_ok fun tree p q b => by
      rw [FnSource.load_impl_method_eq_ok, FnSource.registrations_eq_ok]
  simp only [loadImpl, registrations, LoadStep.run_bind_eq_ok, LoadStep.run_lift_eq_ok,
    LoadStep.run_register_eq_ok, hmethods, Outcome.bind_eq_ok, Outcome.pure_eq_ok]
  constructor
  · intro h
    obtain ⟨traitDef, _, ⟨htrait, rfl⟩, selfTy, _, ⟨hself, rfl⟩, _, middle,
      ⟨rfl, rss, hrss, hadds⟩, hadd⟩ := h
    exact ⟨_, ⟨traitDef, htrait, selfTy, hself, rss, hrss, rfl⟩,
      adds_all_append.mpr ⟨middle, hadds, q, hadd, rfl⟩⟩
  · intro h
    obtain ⟨_, ⟨traitDef, htrait, selfTy, hself, rss, hrss, rfl⟩, hall⟩ := h
    obtain ⟨middle, hadds, _, hadd, rfl⟩ := adds_all_append.mp hall
    exact ⟨traitDef, p, ⟨htrait, rfl⟩, selfTy, p, ⟨hself, rfl⟩, _, middle,
      ⟨rfl, rss, hrss, hadds⟩, hadd⟩

/-- An item is loaded exactly if what it registers is built and can be added. -/
theorem run_load_item_eq_ok {item : Spanned ItemTree} :
    (loadItem l item).run p = .ok ((), q) ↔
      ∃ rs, registrations l item = .ok rs ∧ AddsAll p q rs := by
  obtain ⟨value, region⟩ := item
  cases value with
  | crate name =>
      show Except.ok ((), p) = Except.ok ((), q) ↔ _
      simp [registrations, Outcome.pure_eq_ok, AddsAll]
  | externCrate name signatures => exact run_extern_crate_eq_ok
  | externFn signature =>
      exact FnSource.load_extern_fn_eq_ok.trans FnSource.registrations_eq_ok.symm
  | struct name params =>
      refine LoadStep.run_modify_eq_ok.trans ?_
      simp [registrations, Outcome.pure_eq_ok, AddsAll, Registration.Adds]
  | trait name methods => exact run_trait_eq_ok
  | impl path selfTree methods => exact run_impl_eq_ok
  | fn entry signature body => exact FnSource.load_fn_eq_ok.trans FnSource.registrations_eq_ok.symm

/-! ## What an item registers, by its form -/

/-- The trait that an item declares, with its methods. -/
def traitOf (l : Loader) (region : Region) (name : Token) (methods : List (Spanned MethodTree)) :
    TraitDecl :=
  { defId := l.scope.localDef name.string
    methods := methods.map fun tree => tree.value.signature.name.string
    span := region.span l.file }

/-- The impl that an item declares: each of its methods is the function under the path of the
impl. -/
def implOf (l : Loader) (region : Region) (traitDef : DefId) (selfTy : Ty)
    (methods : List (Spanned MethodTree)) : TraitImpl :=
  { defId := l.scope.localDef (implSegment selfTy traitDef), traitDef, selfTy
    methods := methods.map fun tree => (tree.value.signature.name.string,
      (FnSource.ofImpl l (implSegment selfTy traitDef) selfTy tree).defId)
    span := region.span l.file }

/-- An item registers functions, and behind them the struct, the trait or the impl that it is. -/
inductive Enlists (l : Loader) : Spanned ItemTree → List FnDecl → Option Registration → Prop
  | crate {region name} : Enlists l ⟨.crate name, region⟩ [] none
  | externCrate {region name signatures fns} :
      List.Forall₂ (fun tree fn => (FnSource.ofCrate l name.string tree).lower = .ok fn)
        signatures fns →
      Enlists l ⟨.externCrate name signatures, region⟩ fns none
  | externFn {region signature fn} :
      (FnSource.foreign l region signature).lower = .ok fn →
      Enlists l ⟨.externFn signature, region⟩ [fn] none
  | struct {region name params} :
      Enlists l ⟨.struct name params, region⟩ []
        (some (.struct { defId := l.scope.localDef name.string, params := params.map Token.string,
                         span := region.span l.file }))
  | trait {region name methods fns} :
      List.Forall₂ (fun tree fn =>
        (FnSource.ofTrait l (l.scope.localDef name.string) tree).lower = .ok fn) methods fns →
      Enlists l ⟨.trait name methods, region⟩ fns (some (.trait (traitOf l region name methods)))
  | impl {region path selfTree methods traitDef selfTy fns} :
      lowerDef l.scope path = .ok traitDef → selfTree.lower l.scope = .ok selfTy →
      List.Forall₂ (fun tree fn =>
        (FnSource.ofImpl l (implSegment selfTy traitDef) selfTy tree).lower = .ok fn) methods fns →
      Enlists l ⟨.impl path selfTree methods, region⟩ fns
        (some (.impl (implOf l region traitDef selfTy methods)))
  | fn {region entry signature body fn} :
      (FnSource.free l region signature body).lower = .ok fn →
      Enlists l ⟨.fn entry signature body, region⟩ [fn] none

/-- Declared functions that are registered one after another. -/
theorem FnSource.exists_registered {source : α → FnSource} {entry : Bool} {as : List α}
    {rss : List (List Registration)}
    (h : (as.mapM fun a => (source a).registrations entry) = .ok rss) :
    ∃ fns, rss.flatten = fns.map (Registration.fn · entry) ∧
      List.Forall₂ (fun a fn => (source a).lower = .ok fn) as fns := by
  rw [Outcome.map_m_eq_ok] at h
  induction h with
  | nil => exact ⟨[], rfl, .nil⟩
  | cons hhead _ ih =>
      obtain ⟨fn, hlower, rfl⟩ := Outcome.map_eq_ok.mp hhead
      obtain ⟨fns, hfns, hall⟩ := ih
      refine ⟨fn :: fns, ?_, .cons hlower hall⟩
      rw [List.flatten_cons, hfns, List.map_cons, List.singleton_append]

/-- What an item registers are functions and what comes behind them. -/
theorem exists_enlists {item : Spanned ItemTree} {rs : List Registration}
    (h : registrations l item = .ok rs) : ∃ fns entry decl?, Enlists l item fns decl? ∧
      rs = fns.map (Registration.fn · entry) ++ decl?.toList := by
  obtain ⟨value, region⟩ := item
  cases value with
  | crate name =>
      obtain rfl := Outcome.pure_eq_ok.mp h
      exact ⟨[], false, none, .crate, rfl⟩
  | externCrate name signatures =>
      obtain ⟨rss, hrss, rfl⟩ := Outcome.map_eq_ok.mp h
      obtain ⟨fns, hfns, hall⟩ := FnSource.exists_registered hrss
      exact ⟨fns, false, none, .externCrate hall, hfns.trans (List.append_nil _).symm⟩
  | externFn signature =>
      obtain ⟨fn, hlower, rfl⟩ := Outcome.map_eq_ok.mp h
      exact ⟨[fn], false, none, .externFn hlower, rfl⟩
  | struct name params =>
      obtain rfl := Outcome.pure_eq_ok.mp h
      exact ⟨[], false, _, .struct, rfl⟩
  | trait name methods =>
      obtain ⟨rss, hrss, hrs⟩ := Outcome.bind_eq_ok.mp h
      obtain rfl := Outcome.pure_eq_ok.mp hrs
      obtain ⟨fns, hfns, hall⟩ := FnSource.exists_registered hrss
      exact ⟨fns, false, _, .trait hall, congrArg (· ++ _) hfns⟩
  | impl path selfTree methods =>
      simp only [registrations, Outcome.bind_eq_ok, Outcome.pure_eq_ok] at h
      obtain ⟨traitDef, htrait, selfTy, hself, rss, hrss, rfl⟩ := h
      obtain ⟨fns, hfns, hall⟩ := FnSource.exists_registered hrss
      exact ⟨fns, false, _, .impl htrait hself hall, congrArg (· ++ _) hfns⟩
  | fn entry signature body =>
      obtain ⟨fn, hlower, rfl⟩ := Outcome.map_eq_ok.mp h
      exact ⟨[fn], entry, none, .fn hlower, rfl⟩

/-! ## Items up to places -/

variable {l l' : Loader}

/-- Functions alike register the same up to spans. -/
theorem FnSource.registrations_alike {src src' : FnSource} (h : src.Alike src') {entry : Bool}
    {rs : List Registration} (hrs : src.registrations entry = .ok rs) :
    ∃ rs', src'.registrations entry = .ok rs' ∧
      rs'.map Registration.withoutSpans = rs.map Registration.withoutSpans := by
  obtain ⟨fn, hlower, rfl⟩ := Outcome.map_eq_ok.mp hrs
  exact ⟨_, Outcome.map_eq_ok.mpr ⟨_, FnSource.lower_alike h hlower, rfl⟩, rfl⟩

/-- Lists whose elements register the same up to spans, one after another, do so as a whole. -/
theorem map_m_related {R : α → α → Prop} {as as' : List α} {g g' : α → Load (List Registration)}
    (hall : List.Forall₂ R as as')
    (h : ∀ a a', R a a' → ∀ rs, g a = .ok rs → ∃ rs', g' a' = .ok rs' ∧
      rs'.map Registration.withoutSpans = rs.map Registration.withoutSpans)
    {rss : List (List Registration)} (hrss : as.mapM g = .ok rss) :
    ∃ rss', as'.mapM g' = .ok rss' ∧
      rss'.flatten.map Registration.withoutSpans = rss.flatten.map Registration.withoutSpans := by
  induction hall generalizing rss with
  | nil =>
      obtain rfl := Outcome.pure_eq_ok.mp hrss
      exact ⟨[], rfl, rfl⟩
  | cons ha _ ih =>
      simp only [List.mapM_cons, Outcome.bind_eq_ok, Outcome.pure_eq_ok] at hrss ⊢
      obtain ⟨rs, hrs, more, hmore, rfl⟩ := hrss
      obtain ⟨rs', hrs', hhead⟩ := h _ _ ha rs hrs
      obtain ⟨more', hmore', htail⟩ := ih hmore
      refine ⟨_, ⟨rs', hrs', more', hmore', rfl⟩, ?_⟩
      rw [List.flatten_cons, List.flatten_cons, List.map_append, List.map_append, hhead, htail]

/-- Lists that agree element by element register the same up to spans. -/
theorem map_m_alike {u : α → β} {as as' : List α} {g g' : α → Load (List Registration)}
    (hsame : as'.map u = as.map u)
    (h : ∀ a a', u a' = u a → ∀ rs, g a = .ok rs → ∃ rs', g' a' = .ok rs' ∧
      rs'.map Registration.withoutSpans = rs.map Registration.withoutSpans)
    {rss : List (List Registration)} (hrss : as.mapM g = .ok rss) :
    ∃ rss', as'.mapM g' = .ok rss' ∧
      rss'.flatten.map Registration.withoutSpans = rss.flatten.map Registration.withoutSpans := by
  have hall : List.Forall₂ Eq (as.map u) (as'.map u) := by
    rw [hsame, List.forall₂_eq_eq_eq]
  refine map_m_related (List.forall₂_map_right_iff.mp (List.forall₂_map_left_iff.mp hall)) ?_ hrss
  exact fun a a' ha => h a a' ha.symm

section Alike

variable (hs : l.scope.Alike l'.scope)
include hs

theorem local_def_alike (path : String) : l'.scope.localDef path = l.scope.localDef path :=
  congrArg (DefId.mk · path) hs.localCrate

/-- Signatures that agree up to places give the same identity, however it is made of their name. -/
theorem local_def_of_signature_alike {signature signature' : SignatureTree}
    (h : signature'.unplaced = signature.unplaced) (path : String → String) :
    l'.scope.localDef (path signature'.name.string) =
      l.scope.localDef (path signature.name.string) := by
  rw [local_def_alike hs, Token.string_of_unplaced (congrArg SignatureTree.name h)]

namespace FnSource

variable {region region' : Region}

/-- Free functions are alike if they are the same without their places. -/
theorem free_alike {signature signature' : SignatureTree} {body body' : Spanned BodyTree}
    (hsignature : signature'.unplaced = signature.unplaced)
    (hbody : body'.unplaced BodyTree.unplaced = body.unplaced BodyTree.unplaced) :
    (free l region signature body).Alike (free l' region' signature' body') where
  defId := local_def_of_signature_alike hs hsignature id
  signature := hsignature
  body := congrArg some hbody
  outer := hs
  implicit := rfl
  traitDef := rfl
  isExtern := rfl

/-- Extern functions are alike if they are the same without their places. -/
theorem foreign_alike {signature signature' : SignatureTree}
    (hsignature : signature'.unplaced = signature.unplaced) :
    (foreign l region signature).Alike (foreign l' region' signature') where
  defId := local_def_of_signature_alike hs hsignature id
  signature := hsignature
  body := rfl
  outer := hs
  implicit := rfl
  traitDef := rfl
  isExtern := rfl

/-- Functions of an external crate are alike if they are the same without their places. -/
theorem of_crate_alike {crate : String} {tree tree' : Spanned SignatureTree}
    (htree : tree'.unplaced SignatureTree.unplaced = tree.unplaced SignatureTree.unplaced) :
    (ofCrate l crate tree).Alike (ofCrate l' crate tree') := by
  have hsignature : tree'.value.unplaced = tree.value.unplaced := congrArg Spanned.value htree
  have hname := Token.string_of_unplaced (congrArg SignatureTree.name hsignature)
  exact
    { defId := congrArg (DefId.mk crate) hname
      signature := hsignature
      body := rfl
      outer := hs
      implicit := rfl
      traitDef := rfl
      isExtern := rfl }

/-- Methods of a trait are alike if they are the same without their places. -/
theorem of_trait_alike {traitDef : DefId} {tree tree' : Spanned MethodTree}
    (htree : tree'.unplaced MethodTree.unplaced = tree.unplaced MethodTree.unplaced) :
    (ofTrait l traitDef tree).Alike (ofTrait l' traitDef tree') := by
  have hmethod : tree'.value.unplaced = tree.value.unplaced := congrArg Spanned.value htree
  have hsignature := congrArg MethodTree.signature hmethod
  exact
    { defId := local_def_of_signature_alike hs hsignature (methodPath traitDef.path)
      signature := hsignature
      body := congrArg MethodTree.body hmethod
      outer := hs.bind _ _
      implicit := rfl
      traitDef := rfl
      isExtern := rfl }

/-- Methods of an impl are alike if they are the same without their places. -/
theorem of_impl_alike {path : String} {selfTy : Ty} {tree tree' : Spanned MethodTree}
    (htree : tree'.unplaced MethodTree.unplaced = tree.unplaced MethodTree.unplaced) :
    (ofImpl l path selfTy tree).Alike (ofImpl l' path selfTy tree') := by
  have hmethod : tree'.value.unplaced = tree.value.unplaced := congrArg Spanned.value htree
  have hsignature := congrArg MethodTree.signature hmethod
  exact
    { defId := local_def_of_signature_alike hs hsignature (methodPath path)
      signature := hsignature
      body := congrArg MethodTree.body hmethod
      outer := hs.bind _ _
      implicit := rfl
      traitDef := rfl
      isExtern := rfl }

end FnSource

omit hs in
/-- Methods that are the same without their places have the same names. -/
theorem method_names_eq {methods methods' : List (Spanned MethodTree)}
    (h : methods'.map (Spanned.unplaced MethodTree.unplaced) =
      methods.map (Spanned.unplaced MethodTree.unplaced)) (f : String → β) :
    (methods'.map fun tree => f tree.value.signature.name.string) =
      methods.map fun tree => f tree.value.signature.name.string := by
  have hnames := congrArg (List.map fun tree => f tree.value.signature.name.string) h
  rw [List.map_map, List.map_map] at hnames
  exact hnames

/-- What an item registers can also be built from another item, up to spans. -/
def RegistersAs (l l' : Loader) (item item' : Spanned ItemTree) : Prop :=
  ∀ rs, registrations l item = .ok rs → ∃ rs', registrations l' item' = .ok rs' ∧
    rs'.map Registration.withoutSpans = rs.map Registration.withoutSpans

section Items

variable {region region' : Region} {name name' : Token} {methods methods' : List (Spanned MethodTree)}

/-- Declarations of a crate that agree up to places. -/
theorem extern_crate_registers_as {signatures signatures' : List (Spanned SignatureTree)}
    (hname : name'.unplaced = name.unplaced)
    (hsignatures : signatures'.map (Spanned.unplaced SignatureTree.unplaced) =
      signatures.map (Spanned.unplaced SignatureTree.unplaced)) :
    RegistersAs l l' ⟨.externCrate name signatures, region⟩
      ⟨.externCrate name' signatures', region'⟩ := by
  intro rs hrs
  obtain ⟨rss, hrss, rfl⟩ := Outcome.map_eq_ok.mp hrs
  obtain ⟨rss', hrss', hsame⟩ := map_m_alike hsignatures
    (fun _ _ htree _ => FnSource.registrations_alike (FnSource.of_crate_alike hs htree)) hrss
  rw [← Token.string_of_unplaced hname] at hrss'
  exact ⟨_, Outcome.map_eq_ok.mpr ⟨rss', hrss', rfl⟩, hsame⟩

/-- Structs that agree up to places. -/
theorem struct_registers_as {params params' : List Token} (hname : name'.unplaced = name.unplaced)
    (hparams : params'.map Token.unplaced = params.map Token.unplaced) :
    RegistersAs l l' ⟨.struct name params, region⟩ ⟨.struct name' params', region'⟩ := by
  intro rs hrs
  obtain rfl := Outcome.pure_eq_ok.mp hrs
  have hstrings : params'.map Token.string = params.map Token.string := by
    have h := congrArg (List.map Token.string) hparams
    rwa [List.map_map, List.map_map] at h
  refine ⟨_, rfl, ?_⟩
  simp only [List.map_cons, List.map_nil, Registration.withoutSpans, StructDecl.unspanned,
    hstrings, local_def_alike hs, Token.string_of_unplaced hname]

/-- Traits that agree up to places. -/
theorem trait_registers_as (hname : name'.unplaced = name.unplaced)
    (hmethods : methods'.map (Spanned.unplaced MethodTree.unplaced) =
      methods.map (Spanned.unplaced MethodTree.unplaced)) :
    RegistersAs l l' ⟨.trait name methods, region⟩ ⟨.trait name' methods', region'⟩ := by
  intro rs hrs
  replace hname := Token.string_of_unplaced hname
  obtain ⟨rss, hrss, hrs⟩ := Outcome.bind_eq_ok.mp hrs
  obtain rfl := Outcome.pure_eq_ok.mp hrs
  obtain ⟨rss', hrss', hsame⟩ := map_m_alike hmethods
    (fun _ _ htree _ => FnSource.registrations_alike (FnSource.of_trait_alike hs htree)) hrss
  rw [← hname, ← local_def_alike hs] at hrss'
  refine ⟨_, Outcome.bind_eq_ok.mpr ⟨rss', hrss', rfl⟩, ?_⟩
  have hnames := method_names_eq hmethods fun name => name
  rw [List.map_append, List.map_append, hsame]
  simp only [List.map_cons, List.map_nil, Registration.withoutSpans, TraitDecl.unspanned, hnames,
    local_def_alike hs, hname]

/-- Impls that agree up to places. -/
theorem impl_registers_as {path path' : PathTree} {selfTree selfTree' : TypeTree}
    (hpath : unplacedSegments path' = unplacedSegments path)
    (hself : selfTree'.unplaced = selfTree.unplaced)
    (hmethods : methods'.map (Spanned.unplaced MethodTree.unplaced) =
      methods.map (Spanned.unplaced MethodTree.unplaced)) :
    RegistersAs l l' ⟨.impl path selfTree methods, region⟩
      ⟨.impl path' selfTree' methods', region'⟩ := by
  intro rs hrs
  simp only [registrations, Outcome.bind_eq_ok, Outcome.pure_eq_ok] at hrs ⊢
  obtain ⟨traitDef, htrait, selfTy, hselfTy, rss, hrss, rfl⟩ := hrs
  -- the path and the self type denote the same in the other scope
  have hsame := Scope.Alike.refl l'.scope
  rw [← lower_def_alike hs, ← hpath, lower_def_alike hsame] at htrait
  rw [← TypeTree.lower_alike hs, ← hself, TypeTree.lower_alike hsame] at hselfTy
  obtain ⟨rss', hrss', hrest⟩ := map_m_alike hmethods
    (fun _ _ htree _ => FnSource.registrations_alike (FnSource.of_impl_alike hs htree)) hrss
  refine ⟨_, ⟨traitDef, htrait, selfTy, hselfTy, rss', hrss', rfl⟩, ?_⟩
  rw [List.map_append, List.map_append, hrest]
  have hentry := method_names_eq hmethods fun name =>
    (name, l.scope.localDef (methodPath (implSegment selfTy traitDef) name))
  simp only [List.map_cons, List.map_nil, Registration.withoutSpans, TraitImpl.unspanned,
    FnSource.ofImpl, local_def_alike hs, hentry]

end Items

/-- What an item registers does not depend on where it stands, up to spans. -/
theorem registrations_alike {item item' : Spanned ItemTree}
    (hitem : item'.unplaced ItemTree.unplaced = item.unplaced ItemTree.unplaced)
    {rs : List Registration} (hrs : registrations l item = .ok rs) :
    ∃ rs', registrations l' item' = .ok rs' ∧
      rs'.map Registration.withoutSpans = rs.map Registration.withoutSpans := by
  obtain ⟨value, region⟩ := item
  obtain ⟨value', region'⟩ := item'
  replace hitem : value'.unplaced = value.unplaced := congrArg Spanned.value hitem
  -- items that agree up to places are of one form
  cases value <;> cases value' <;> try cases hitem
  case crate.crate =>
    obtain rfl := Outcome.pure_eq_ok.mp hrs
    exact ⟨[], rfl, rfl⟩
  case externCrate.externCrate =>
    obtain ⟨hname, hsignatures⟩ := ItemTree.externCrate.inj hitem
    exact extern_crate_registers_as hs hname hsignatures rs hrs
  case externFn.externFn =>
    have hsignature := ItemTree.externFn.inj hitem
    exact FnSource.registrations_alike (FnSource.foreign_alike hs hsignature) hrs
  case struct.struct =>
    obtain ⟨hname, hparams⟩ := ItemTree.struct.inj hitem
    exact struct_registers_as hs hname hparams rs hrs
  case trait.trait =>
    obtain ⟨hname, hmethods⟩ := ItemTree.trait.inj hitem
    exact trait_registers_as hs hname hmethods rs hrs
  case impl.impl =>
    obtain ⟨hpath, hself, hmethods⟩ := ItemTree.impl.inj hitem
    exact impl_registers_as hs hpath hself hmethods rs hrs
  case fn.fn =>
    obtain ⟨rfl, hsignature, hbody⟩ := ItemTree.fn.inj hitem
    exact FnSource.registrations_alike (FnSource.free_alike hs hsignature hbody) hrs

end Alike

end MirAudit.Source
