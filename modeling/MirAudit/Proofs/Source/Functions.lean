import MirAudit.Proofs.Source.Bodies

/-!
# The functions of a source text

`FnSource` is a function as some item of a text declares it, wherever it stands: free, extern, in a
trait or in an impl. `FnSource.lower` gives the function that is registered for it, and the lemmas
`load_…_eq_ok` show that each kind of item loads its functions in this way.
-/

namespace MirAudit.Source

/-- A function as a text declares it. -/
structure FnSource where
  defId : DefId
  signature : SignatureTree
  body : Option (Spanned BodyTree)
  /-- What the signature sees: the crates, and `Self` in a trait or an impl. -/
  outer : Scope
  /-- The parameters in front of those that are written. -/
  implicit : List GenericParam := []
  traitDef : Option DefId := none
  isExtern : Bool := false
  span : Span

/-- The body of a declaration, if it has one. -/
def lowerBody (scope : Scope) (sig : Signature) : Option (Spanned BodyTree) → Load (Option Body)
  | none => return none
  | some tree => some <$> BodyTree.lower scope sig tree

/-- The function of a declaration with a given signature and body. -/
def FnSource.toFn (src : FnSource) (sig : Signature) (body : Option Body) : FnDecl :=
  { sig.toFn src.defId with
    generics := src.implicit ++ sig.generics
    body
    traitDef := src.traitDef
    isExtern := src.isExtern
    span := src.span }

/-- The function that is registered for a declaration. -/
def FnSource.lower (src : FnSource) : Load FnDecl := do
  let (sig, scope) ← src.signature.lower src.outer
  let body ← lowerBody scope sig src.body
  return src.toFn sig body

theorem FnSource.lower_eq_ok {src : FnSource} {fn : FnDecl} :
    src.lower = .ok fn ↔ ∃ sig scope body, src.signature.lower src.outer = .ok (sig, scope) ∧
      lowerBody scope sig src.body = .ok body ∧ src.toFn sig body = fn := by
  unfold FnSource.lower
  simp only [Outcome.bind_eq_ok, Outcome.pure_eq_ok, Prod.exists]
  constructor
  · intro h
    obtain ⟨sig, scope, hsig, body, hbody, hfn⟩ := h
    exact ⟨sig, scope, body, hsig, hbody, hfn⟩
  · intro h
    obtain ⟨sig, scope, body, hsig, hbody, hfn⟩ := h
    exact ⟨sig, scope, hsig, body, hbody, hfn⟩

/-- What is known of a function that was registered for a declaration. -/
structure FnSource.Fits (src : FnSource) (fn : FnDecl) : Prop where
  defId : fn.defId = src.defId
  body : ∀ body, fn.body = some body → body.Fits
  hasBody : fn.body.isSome = src.body.isSome
  implicit : ∃ written, fn.generics = src.implicit ++ written
  traitDef : fn.traitDef = src.traitDef

theorem FnSource.lower_fits {src : FnSource} {fn : FnDecl} (h : src.lower = .ok fn) :
    src.Fits fn := by
  obtain ⟨sig, scope, body, _, hbody, rfl⟩ := FnSource.lower_eq_ok.mp h
  refine ⟨rfl, fun lowered hlowered => ?_, ?_, ⟨sig.generics, rfl⟩, rfl⟩
  · obtain rfl : body = some lowered := hlowered
    cases htree : src.body with
    | none =>
        rw [htree] at hbody
        cases hbody
    | some tree =>
        rw [htree] at hbody
        obtain ⟨_, hlower, ⟨⟩⟩ := Outcome.map_eq_ok.mp hbody
        exact BodyTree.lower_fits hlower
  · show body.isSome = src.body.isSome
    cases htree : src.body with
    | none =>
        rw [htree] at hbody
        obtain rfl := Outcome.pure_eq_ok.mp hbody
        rfl
    | some tree =>
        rw [htree] at hbody
        obtain ⟨_, _, rfl⟩ := Outcome.map_eq_ok.mp hbody
        rfl

/-! ## Signatures -/

/-- The scope that a signature opens: each parameter denotes itself. -/
def Scope.bindParams (outer : Scope) (generics : List GenericParam) : Scope :=
  generics.foldl (fun s param => s.bind param.name (.param param.name)) outer

theorem Scope.crates_bind_params (outer : Scope) (generics : List GenericParam) :
    (outer.bindParams generics).crates = outer.crates := by
  induction generics generalizing outer with
  | nil => rfl
  | cons param generics ih => exact ih (outer.bind param.name (.param param.name))

/-- The output of a signature; without one it gives unit. -/
def lowerOutput (scope : Scope) : Option TypeTree → Load Ty
  | none => return .unit
  | some tree => tree.lower scope

/-- What a signature is made of, when it was built from its tree. -/
theorem SignatureTree.lower_eq_ok {outer scope : Scope} {tree : SignatureTree} {sig : Signature} :
    tree.lower outer = .ok (sig, scope) ↔
      ∃ generics inputs output,
        (tree.generics.mapM fun param => param.value.lower outer) = .ok generics ∧
        duplicateParam? [] tree.generics = none ∧
        scope = outer.bindParams generics ∧
        lowerTypes scope tree.inputs = .ok inputs ∧
        lowerOutput scope tree.output = .ok output ∧
        sig = { name := tree.name.string, generics, inputs, output } := by
  unfold SignatureTree.lower
  rw [Outcome.bind_eq_ok]
  constructor
  · intro h
    obtain ⟨generics, hgenerics, h⟩ := h
    cases hfresh : duplicateParam? [] tree.generics with
    | some fault =>
        rw [hfresh] at h
        obtain ⟨_, hthrow, _⟩ := Outcome.bind_eq_ok.mp h
        exact absurd hthrow Outcome.not_throw_eq_ok
    | none =>
        rw [hfresh] at h
        obtain ⟨inputs, hinputs, h⟩ := Outcome.bind_eq_ok.mp h
        refine ⟨generics, inputs, ?_⟩
        cases houtput : tree.output <;> rw [houtput] at h <;>
          obtain ⟨output, hlower, h⟩ := Outcome.bind_eq_ok.mp h <;> cases h <;>
          exact ⟨output, hgenerics, rfl, rfl, hinputs, hlower, rfl⟩
  · intro h
    obtain ⟨generics, inputs, output, hgenerics, hfresh, rfl, hinputs, houtput, rfl⟩ := h
    refine ⟨generics, hgenerics, ?_⟩
    rw [hfresh]
    refine Outcome.bind_eq_ok.mpr ⟨inputs, hinputs, ?_⟩
    cases htree : tree.output <;> rw [htree] at houtput <;>
      exact Outcome.bind_eq_ok.mpr ⟨output, houtput, rfl⟩

theorem SignatureTree.name_eq {outer scope : Scope} {tree : SignatureTree} {sig : Signature}
    (h : tree.lower outer = .ok (sig, scope)) : sig.name = tree.name.string := by
  obtain ⟨_, _, _, _, _, _, _, _, rfl⟩ := SignatureTree.lower_eq_ok.mp h
  rfl

/-! ## Declarations of each kind -/

namespace FnSource

variable (l : Loader)

/-- A function with a body. -/
def free (region : Region) (signature : SignatureTree) (body : Spanned BodyTree) : FnSource :=
  { defId := l.scope.localDef signature.name.string, signature, body := some body,
    outer := l.scope, span := region.span l.file }

/-- A foreign function of the local crate. -/
def foreign (region : Region) (signature : SignatureTree) : FnSource :=
  { defId := l.scope.localDef signature.name.string, signature, body := none,
    outer := l.scope, isExtern := true, span := region.span l.file }

/-- A function of another crate. -/
def ofCrate (crate : String) (tree : Spanned SignatureTree) : FnSource :=
  { defId := ⟨crate, tree.value.name.string⟩, signature := tree.value, body := none,
    outer := l.scope, isExtern := true, span := tree.region.span l.file }

/-- A method of a trait: `Self` is its first parameter. -/
def ofTrait (traitDef : DefId) (tree : Spanned MethodTree) : FnSource :=
  { defId := l.scope.localDef (methodPath traitDef.path tree.value.signature.name.string)
    signature := tree.value.signature
    body := tree.value.body
    outer := l.scope.bind "Self" (.param "Self")
    implicit := [{ name := "Self" }]
    traitDef := some traitDef
    span := tree.region.span l.file }

/-- A method of an impl, under the path of the impl: `Self` denotes the type of the impl. -/
def ofImpl (path : String) (selfTy : Ty) (tree : Spanned MethodTree) : FnSource :=
  { defId := l.scope.localDef (methodPath path tree.value.signature.name.string)
    signature := tree.value.signature
    body := tree.value.body
    outer := l.scope.bind "Self" selfTy
    span := tree.region.span l.file }

variable {l} {p q : Program}

theorem load_fn_eq_ok {region : Region} {entry : Bool} {signature : SignatureTree}
    {body : Spanned BodyTree} :
    (loadFn l region entry signature body).run p = .ok ((), q) ↔
      ∃ fn, (free l region signature body).lower = .ok fn ∧ p.addFn fn entry = (.ok (), q) := by
  simp only [loadFn, LoadStep.run_bind_eq_ok, LoadStep.run_lift_eq_ok,
    LoadStep.run_register_eq_ok, Prod.exists]
  constructor
  · intro h
    obtain ⟨sig, scope, _, ⟨hsig, rfl⟩, lowered, _, ⟨hbody, rfl⟩, hadd⟩ := h
    rw [SignatureTree.name_eq hsig] at hadd
    exact ⟨_, lower_eq_ok.mpr ⟨sig, scope, some lowered, hsig,
      Outcome.map_eq_ok.mpr ⟨lowered, hbody, rfl⟩, rfl⟩, hadd⟩
  · intro h
    obtain ⟨_, hlower, hadd⟩ := h
    obtain ⟨sig, scope, _, hsig, hbody, rfl⟩ := lower_eq_ok.mp hlower
    obtain ⟨lowered, hlowered, rfl⟩ := Outcome.map_eq_ok.mp hbody
    refine ⟨sig, scope, p, ⟨hsig, rfl⟩, lowered, p, ⟨hlowered, rfl⟩, ?_⟩
    rw [SignatureTree.name_eq hsig]
    exact hadd

theorem load_extern_fn_eq_ok {region : Region} {signature : SignatureTree} :
    (loadExternFn l region signature).run p = .ok ((), q) ↔
      ∃ fn, (foreign l region signature).lower = .ok fn ∧ p.addFn fn false = (.ok (), q) := by
  simp only [loadExternFn, LoadStep.run_bind_eq_ok, LoadStep.run_lift_eq_ok,
    LoadStep.run_register_eq_ok, Prod.exists]
  constructor
  · intro h
    obtain ⟨sig, scope, _, ⟨hsig, rfl⟩, hadd⟩ := h
    rw [SignatureTree.name_eq hsig] at hadd
    exact ⟨_, lower_eq_ok.mpr ⟨sig, scope, none, hsig, rfl, rfl⟩, hadd⟩
  · intro h
    obtain ⟨_, hlower, hadd⟩ := h
    obtain ⟨sig, scope, _, hsig, ⟨⟩, rfl⟩ := lower_eq_ok.mp hlower
    refine ⟨sig, scope, p, ⟨hsig, rfl⟩, ?_⟩
    rw [SignatureTree.name_eq hsig]
    exact hadd

theorem load_extern_signature_eq_ok {crate : String} {tree : Spanned SignatureTree} :
    (loadExternSignature l crate tree).run p = .ok ((), q) ↔
      ∃ fn, (ofCrate l crate tree).lower = .ok fn ∧ p.addFn fn false = (.ok (), q) := by
  simp only [loadExternSignature, LoadStep.run_bind_eq_ok, LoadStep.run_lift_eq_ok,
    LoadStep.run_register_eq_ok, Prod.exists]
  constructor
  · intro h
    obtain ⟨sig, scope, _, ⟨hsig, rfl⟩, hadd⟩ := h
    rw [SignatureTree.name_eq hsig] at hadd
    exact ⟨_, lower_eq_ok.mpr ⟨sig, scope, none, hsig, rfl, rfl⟩, hadd⟩
  · intro h
    obtain ⟨_, hlower, hadd⟩ := h
    obtain ⟨sig, scope, _, hsig, ⟨⟩, rfl⟩ := lower_eq_ok.mp hlower
    refine ⟨sig, scope, p, ⟨hsig, rfl⟩, ?_⟩
    rw [SignatureTree.name_eq hsig]
    exact hadd

/-- A body that may be missing is built as the body of the declaration. -/
theorem load_body_eq_ok {α : Type} {scope : Scope} {sig : Signature}
    {tree : Option (Spanned BodyTree)} {rest : Option Body → LoadStep α} {a : α} :
    StateT.run (match tree with
      | none => do
          let body ← pure none
          rest body
      | some tree => do
          let body ← some <$> liftM (BodyTree.lower scope sig tree)
          rest body) p = .ok (a, q) ↔
      ∃ body, lowerBody scope sig tree = .ok body ∧ (rest body).run p = .ok (a, q) := by
  cases tree with
  | none =>
      constructor
      · exact fun h => ⟨none, rfl, h⟩
      · intro h
        obtain ⟨_, ⟨⟩, h⟩ := h
        exact h
  | some tree =>
      simp only [LoadStep.run_bind_eq_ok, LoadStep.run_map_eq_ok, LoadStep.run_lift_eq_ok]
      constructor
      · intro h
        obtain ⟨_, _, ⟨body, ⟨hbody, rfl⟩, rfl⟩, h⟩ := h
        exact ⟨some body, Outcome.map_eq_ok.mpr ⟨body, hbody, rfl⟩, h⟩
      · intro h
        obtain ⟨_, hbody, h⟩ := h
        obtain ⟨body, hlower, rfl⟩ := Outcome.map_eq_ok.mp hbody
        exact ⟨some body, p, ⟨body, ⟨hlower, rfl⟩, rfl⟩, h⟩

theorem load_trait_method_eq_ok {traitDef : DefId} {tree : Spanned MethodTree} {name : String} :
    (loadTraitMethod l traitDef tree).run p = .ok (name, q) ↔
      name = tree.value.signature.name.string ∧
        ∃ fn, (ofTrait l traitDef tree).lower = .ok fn ∧ p.addFn fn false = (.ok (), q) := by
  simp only [loadTraitMethod, LoadStep.run_bind_eq_ok, LoadStep.run_lift_eq_ok, Prod.exists]
  constructor
  · intro h
    obtain ⟨sig, scope, _, ⟨hsig, rfl⟩, h⟩ := h
    obtain ⟨body, hbody, h⟩ := load_body_eq_ok.mp h
    simp only [LoadStep.run_bind_eq_ok, LoadStep.run_register_eq_ok, LoadStep.run_pure_eq_ok] at h
    obtain ⟨_, _, hadd, hname, rfl⟩ := h
    rw [SignatureTree.name_eq hsig] at hadd hname
    exact ⟨hname.symm, _, lower_eq_ok.mpr ⟨sig, scope, body, hsig, hbody, rfl⟩, hadd⟩
  · intro h
    obtain ⟨rfl, _, hlower, hadd⟩ := h
    obtain ⟨sig, scope, body, hsig, hbody, rfl⟩ := lower_eq_ok.mp hlower
    refine ⟨sig, scope, p, ⟨hsig, rfl⟩, load_body_eq_ok.mpr ⟨body, hbody, ?_⟩⟩
    simp only [LoadStep.run_bind_eq_ok, LoadStep.run_register_eq_ok, LoadStep.run_pure_eq_ok]
    rw [SignatureTree.name_eq hsig]
    exact ⟨(), q, hadd, rfl, rfl⟩

theorem load_impl_method_eq_ok {path : String} {selfTy : Ty} {tree : Spanned MethodTree}
    {method : String × DefId} :
    (loadImplMethod l path selfTy tree).run p = .ok (method, q) ↔
      method = (tree.value.signature.name.string, (ofImpl l path selfTy tree).defId) ∧
        ∃ fn, (ofImpl l path selfTy tree).lower = .ok fn ∧ p.addFn fn false = (.ok (), q) := by
  simp only [loadImplMethod, LoadStep.run_bind_eq_ok, LoadStep.run_lift_eq_ok, Prod.exists]
  constructor
  · intro h
    obtain ⟨sig, scope, _, ⟨hsig, rfl⟩, h⟩ := h
    obtain ⟨body, hbody, h⟩ := load_body_eq_ok.mp h
    simp only [LoadStep.run_bind_eq_ok, LoadStep.run_register_eq_ok, LoadStep.run_pure_eq_ok] at h
    obtain ⟨_, _, hadd, hmethod, rfl⟩ := h
    rw [SignatureTree.name_eq hsig] at hadd hmethod
    exact ⟨hmethod.symm, _, lower_eq_ok.mpr ⟨sig, scope, body, hsig, hbody, rfl⟩, hadd⟩
  · intro h
    obtain ⟨rfl, _, hlower, hadd⟩ := h
    obtain ⟨sig, scope, body, hsig, hbody, rfl⟩ := lower_eq_ok.mp hlower
    refine ⟨sig, scope, p, ⟨hsig, rfl⟩, load_body_eq_ok.mpr ⟨body, hbody, ?_⟩⟩
    simp only [LoadStep.run_bind_eq_ok, LoadStep.run_register_eq_ok, LoadStep.run_pure_eq_ok]
    rw [SignatureTree.name_eq hsig]
    exact ⟨(), q, hadd, rfl, rfl⟩

end FnSource

end MirAudit.Source
