import MirAudit.Proofs.Program.Registered
import MirAudit.Proofs.Program.Resolution
import MirAudit.Proofs.Source.Functions

/-!
# Programs that were loaded

Loading registers the functions that the items of a text declare, and nothing else. `Registers` says
what a part of loading adds to a program; parts one after another add what each of them adds.
`loaded_of_items` collects what holds of a whole program.
-/

namespace MirAudit.Source

/-! ## Declarations -/

/-- `src` is a function that an item of the text declares. -/
inductive Declares (l : Loader) : Spanned ItemTree → FnSource → Prop where
  | ofCrate {region name signatures tree} :
      tree ∈ signatures →
      Declares l ⟨.externCrate name signatures, region⟩ (.ofCrate l name.string tree)
  | foreign {region signature} :
      Declares l ⟨.externFn signature, region⟩ (.foreign l region signature)
  | ofTrait {region name methods tree} :
      tree ∈ methods →
      Declares l ⟨.trait name methods, region⟩ (.ofTrait l (l.scope.localDef name.string) tree)
  | ofImpl {region path selfTree methods traitDef selfTy tree} :
      lowerDef l.scope path = .ok traitDef → selfTree.lower l.scope = .ok selfTy →
      tree ∈ methods →
      Declares l ⟨.impl path selfTree methods, region⟩
        (.ofImpl l (implSegment selfTy traitDef) selfTy tree)
  | free {region entry signature body} :
      Declares l ⟨.fn entry signature body, region⟩ (.free l region signature body)

/-- The functions of traits have `Self` as a parameter, and only they do not stand alone. -/
theorem Declares.implicit_ne_nil {l : Loader} {item : Spanned ItemTree} {src : FnSource}
    (h : Declares l item src) (htrait : src.traitDef.isSome = true) : src.implicit ≠ [] := by
  cases h with
  | ofTrait => exact List.cons_ne_nil _ _
  | ofCrate | foreign | ofImpl | free => cases htrait

/-! ## Parts of loading -/

/-- What a part of loading adds: it registers the declared functions, and the methods of the impls
that it adds are functions of their own. -/
structure Registers (declared : FnSource → Prop) (p q : Program) : Prop where
  registered : p.Registered → q.Registered
  grows : p.Extends q
  found : ∀ {id fn}, q.fnDecl id = some fn →
    p.fnDecl id = some fn ∨ ∃ src, declared src ∧ src.lower = .ok fn
  entered : ∀ {src}, declared src → ∃ fn, src.lower = .ok fn ∧ q.fnDecl src.defId = some fn
  impl_method : ∀ {traitDef selfTy impl}, q.findImpl traitDef selfTy = some impl →
    p.findImpl traitDef selfTy = some impl ∨
      ∀ method ∈ impl.methods, ∃ fn, q.fnDecl method.2 = some fn ∧ fn.traitDef = none

namespace Registers

variable {declared further : FnSource → Prop} {p q r : Program}

theorem nothing (p : Program) : Registers (fun _ => False) p p where
  registered := id
  grows := .refl p
  found := Or.inl
  entered h := h.elim
  impl_method := Or.inl

theorem trans (hpq : Registers declared p q) (hqr : Registers further q r) :
    Registers (fun src => declared src ∨ further src) p r where
  registered hp := hqr.registered (hpq.registered hp)
  grows := hpq.grows.trans hqr.grows
  found h := by
    rcases hqr.found h with h | ⟨src, hsrc, hlower⟩
    · rcases hpq.found h with h | ⟨src, hsrc, hlower⟩
      · exact Or.inl h
      · exact Or.inr ⟨src, Or.inl hsrc, hlower⟩
    · exact Or.inr ⟨src, Or.inr hsrc, hlower⟩
  entered {src} h := by
    rcases h with h | h
    · obtain ⟨fn, hlower, hfound⟩ := hpq.entered h
      exact ⟨fn, hlower, hqr.grows.fns hfound⟩
    · exact hqr.entered h
  impl_method h := by
    rcases hqr.impl_method h with h | h
    · rcases hpq.impl_method h with h | h
      · exact Or.inl h
      · refine Or.inr fun method hmethod => ?_
        obtain ⟨fn, hfound, htrait⟩ := h method hmethod
        exact ⟨fn, hqr.grows.fns hfound, htrait⟩
    · exact Or.inr h

/-- The same functions may be described in another way. -/
theorem congr (h : Registers declared p q) (heq : ∀ src, declared src ↔ further src) :
    Registers further p q := by
  obtain rfl : declared = further := funext fun src => propext (heq src)
  exact h

/-- The registration of a declared function. -/
theorem of_add_fn {src : FnSource} {fn : FnDecl} {entry : Bool} (hlower : src.lower = .ok fn)
    (h : p.addFn fn entry = (.ok (), q)) : Registers (· = src) p q := by
  have hid : fn.defId = src.defId := (FnSource.lower_fits hlower).defId
  have hentered : q.fnDecl fn.defId = some fn ∧ q.implIndex = p.implIndex ∧
      ∀ id, id ≠ fn.defId → q.fnDecl id = p.fnDecl id := by
    have hwith : (p.withFn fn).fnDecl fn.defId = some fn ∧
        ∀ id, id ≠ fn.defId → (p.withFn fn).fnDecl id = p.fnDecl id := by
      simp only [Program.fnDecl, Program.withFn, Table.get?_insert, if_true, true_and]
      exact fun id hne => if_neg hne
    rcases Program.add_fn_cases h with ⟨-, fault, hfault⟩ | ⟨-, -, ⟨rfl, -⟩ | ⟨rfl, -⟩ | ⟨rfl, -⟩⟩
    · cases hfault
    · exact ⟨hwith.1, rfl, hwith.2⟩
    · exact ⟨hwith.1, rfl, hwith.2⟩
    · exact ⟨hwith.1, rfl, hwith.2⟩
  obtain ⟨hfn, hindex, hother⟩ := hentered
  refine ⟨fun hp => hp.add_fn h, Program.extends_add_fn h, fun {id found} hfound => ?_, ?_, ?_⟩
  · by_cases hne : id = fn.defId
    · rw [hne, hfn] at hfound
      exact Or.inr ⟨src, rfl, Option.some.inj hfound ▸ hlower⟩
    · exact Or.inl (hother id hne ▸ hfound)
  · rintro _ rfl
    exact ⟨fn, hlower, hid ▸ hfn⟩
  · intro traitDef selfTy impl himpl
    rw [Program.findImpl, hindex] at himpl
    exact Or.inl himpl

/-- Steps one after another register what each of them does. -/
theorem for_m {α : Type} {f : α → LoadStep Unit} {as : List α} {part : α → FnSource → Prop}
    (hstep : ∀ a ∈ as, ∀ p q, (f a).run p = .ok ((), q) → Registers (part a) p q)
    (h : (as.forM f).run p = .ok ((), q)) : Registers (fun src => ∃ a ∈ as, part a src) p q := by
  induction as generalizing p with
  | nil =>
      cases h
      exact (nothing q).congr (by simp)
  | cons a as ih =>
      change (f a >>= fun _ => as.forM f).run p = .ok ((), q) at h
      obtain ⟨⟨⟩, middle, ha, hrest⟩ := LoadStep.run_bind_eq_ok.mp h
      have hfirst := hstep a List.mem_cons_self p middle ha
      have hothers := ih (fun b hb => hstep b (List.mem_cons_of_mem a hb)) hrest
      exact (hfirst.trans hothers).congr (by simp)

/-- Steps that give a value each register what each of them does. -/
theorem map_m {α β : Type} {f : α → LoadStep β} {g : α → β} {as : List α} {bs : List β}
    {part : α → FnSource → Prop}
    (hstep : ∀ a ∈ as, ∀ p q b, (f a).run p = .ok (b, q) → b = g a ∧ Registers (part a) p q)
    (h : (as.mapM f).run p = .ok (bs, q)) :
    bs = as.map g ∧ Registers (fun src => ∃ a ∈ as, part a src) p q := by
  induction as generalizing p bs with
  | nil =>
      cases h
      exact ⟨rfl, (nothing q).congr (by simp)⟩
  | cons a as ih =>
      rw [List.mapM_cons] at h
      obtain ⟨b, middle, ha, h⟩ := LoadStep.run_bind_eq_ok.mp h
      obtain ⟨rest, last, hrest, h⟩ := LoadStep.run_bind_eq_ok.mp h
      cases h
      obtain ⟨rfl, hfirst⟩ := hstep a List.mem_cons_self p middle b ha
      obtain ⟨rfl, hothers⟩ := ih (fun b hb => hstep b (List.mem_cons_of_mem a hb)) hrest
      exact ⟨rfl, (hfirst.trans hothers).congr (by simp)⟩

end Registers

/-! ## Items -/

variable {l : Loader} {p q : Program}

theorem Registers.load_trait {region : Region} {name : Token} {methods : List (Spanned MethodTree)}
    (h : (loadTrait l region name methods).run p = .ok ((), q)) :
    Registers (Declares l ⟨.trait name methods, region⟩) p q := by
  have hmethod : ∀ tree ∈ methods, ∀ p q given,
      (loadTraitMethod l (l.scope.localDef name.string) tree).run p = .ok (given, q) →
      given = tree.value.signature.name.string ∧
        Registers (· = .ofTrait l (l.scope.localDef name.string) tree) p q := by
    intro tree _ p q given hrun
    obtain ⟨hname, fn, hlower, hadd⟩ := FnSource.load_trait_method_eq_ok.mp hrun
    exact ⟨hname, .of_add_fn hlower hadd⟩
  unfold loadTrait at h
  obtain ⟨names, middle, hmethods, h⟩ := LoadStep.run_bind_eq_ok.mp h
  obtain rfl := LoadStep.run_modify_eq_ok.mp h
  obtain ⟨-, hregisters⟩ := Registers.map_m hmethod hmethods
  -- a trait comes behind its methods, and enters no function itself
  have hdecl : Registers (fun _ => False) middle (middle.addTrait
      { defId := l.scope.localDef name.string, methods := names, span := region.span l.file }) :=
    { Registers.nothing middle with
      registered := fun hp => hp.add_trait _
      grows := Program.extends_add_trait _ _ }
  refine (hregisters.trans hdecl).congr fun src => ?_
  constructor
  · intro h
    obtain ⟨tree, htree, rfl⟩ | h := h
    · exact .ofTrait htree
    · exact h.elim
  · intro hsrc
    cases hsrc with
    | ofTrait htree => exact Or.inl ⟨_, htree, rfl⟩

/-- An impl that is registered behind its methods. -/
theorem Registers.add_impl {decl : TraitImpl} (h : p.addImpl decl = (.ok (), q))
    (hmethods : ∀ method ∈ decl.methods, ∃ fn, p.fnDecl method.2 = some fn ∧ fn.traitDef = none) :
    Registers (fun _ => False) p q where
  registered hp := hp.add_impl h
  grows := Program.extends_add_impl h
  found hfound := by
    unfold Program.addImpl at h
    split at h <;> cases h
    exact Or.inl hfound
  entered h := h.elim
  impl_method {traitDef selfTy impl} hfound := by
    unfold Program.addImpl at h
    split at h <;> cases h
    rw [Program.findImpl] at hfound
    change (p.implIndex.insert _ decl).get? _ = some impl at hfound
    rw [Table.get?_insert] at hfound
    split at hfound
    · cases hfound
      exact Or.inr hmethods
    · exact Or.inl hfound

theorem Registers.load_impl {region : Region} {path : PathTree} {selfTree : TypeTree}
    {methods : List (Spanned MethodTree)}
    (h : (loadImpl l region path selfTree methods).run p = .ok ((), q)) :
    Registers (Declares l ⟨.impl path selfTree methods, region⟩) p q := by
  unfold loadImpl at h
  obtain ⟨traitDef, _, hpath, h⟩ := LoadStep.run_bind_eq_ok.mp h
  obtain ⟨htrait, rfl⟩ := LoadStep.run_lift_eq_ok.mp hpath
  obtain ⟨selfTy, _, hself, h⟩ := LoadStep.run_bind_eq_ok.mp h
  obtain ⟨hselfTy, rfl⟩ := LoadStep.run_lift_eq_ok.mp hself
  have hmethod : ∀ tree ∈ methods, ∀ p q given,
      (loadImplMethod l (implSegment selfTy traitDef) selfTy tree).run p = .ok (given, q) →
      given = (tree.value.signature.name.string,
          (FnSource.ofImpl l (implSegment selfTy traitDef) selfTy tree).defId) ∧
        Registers (· = .ofImpl l (implSegment selfTy traitDef) selfTy tree) p q := by
    intro tree _ p q given hrun
    obtain ⟨hgiven, fn, hlower, hadd⟩ := FnSource.load_impl_method_eq_ok.mp hrun
    exact ⟨hgiven, .of_add_fn hlower hadd⟩
  obtain ⟨names, middle, hmethods, h⟩ := LoadStep.run_bind_eq_ok.mp h
  have hadd := LoadStep.run_register_eq_ok.mp h
  obtain ⟨rfl, hregisters⟩ := Registers.map_m hmethod hmethods
  -- the impl is entered last, when its methods are functions of the program
  have himpl : Registers (fun _ => False) middle q := by
    refine .add_impl hadd fun method hmem => ?_
    obtain ⟨tree, htree, rfl⟩ := List.mem_map.mp hmem
    obtain ⟨fn, hlower, hfound⟩ := hregisters.entered ⟨tree, htree, rfl⟩
    exact ⟨fn, hfound, (FnSource.lower_fits hlower).traitDef⟩
  refine (hregisters.trans himpl).congr fun src => ?_
  constructor
  · intro h
    obtain ⟨tree, htree, rfl⟩ | h := h
    · exact .ofImpl htrait hselfTy htree
    · exact h.elim
  · intro hsrc
    cases hsrc with
    | ofImpl hpath hselfTree htree =>
        obtain rfl := Except.ok.inj (htrait.symm.trans hpath)
        obtain rfl := Except.ok.inj (hselfTy.symm.trans hselfTree)
        exact Or.inl ⟨_, htree, rfl⟩

/-- Loading an item registers what it declares. -/
theorem Registers.load_item {item : Spanned ItemTree}
    (h : (loadItem l item).run p = .ok ((), q)) : Registers (Declares l item) p q := by
  obtain ⟨value, region⟩ := item
  cases value with
  | crate name =>
      cases h
      refine (Registers.nothing p).congr fun src => ⟨False.elim, nofun⟩
  | externCrate name signatures =>
      have hsignature : ∀ tree ∈ signatures, ∀ p q,
          (loadExternSignature l name.string tree).run p = .ok ((), q) →
          Registers (· = .ofCrate l name.string tree) p q := by
        intro tree _ p q hrun
        obtain ⟨fn, hlower, hadd⟩ := FnSource.load_extern_signature_eq_ok.mp hrun
        exact .of_add_fn hlower hadd
      refine (Registers.for_m hsignature h).congr fun src => ?_
      constructor
      · intro h
        obtain ⟨tree, htree, rfl⟩ := h
        exact .ofCrate htree
      · intro hsrc
        cases hsrc with
        | ofCrate htree => exact ⟨_, htree, rfl⟩
  | externFn signature =>
      obtain ⟨fn, hlower, hadd⟩ := FnSource.load_extern_fn_eq_ok.mp h
      refine (Registers.of_add_fn hlower hadd).congr fun src => ?_
      constructor
      · rintro rfl
        exact .foreign
      · intro hsrc
        cases hsrc with
        | foreign => rfl
  | struct name params =>
      obtain rfl := LoadStep.run_modify_eq_ok.mp h
      refine Registers.congr { Registers.nothing p with
        registered := fun hp => hp.add_struct _
        grows := Program.extends_add_struct _ _ } fun src => ⟨False.elim, nofun⟩
  | trait name methods => exact Registers.load_trait h
  | impl path selfTree methods => exact Registers.load_impl h
  | fn entry signature body =>
      obtain ⟨fn, hlower, hadd⟩ := FnSource.load_fn_eq_ok.mp h
      refine (Registers.of_add_fn hlower hadd).congr fun src => ?_
      constructor
      · rintro rfl
        exact .free
      · intro hsrc
        cases hsrc with
        | free => rfl

/-! ## Whole texts -/

/-- A program of crates alone: nothing is registered yet, and no two crates share a name. -/
structure CratesOnly (crate : String) (p : Program) : Prop where
  only : p = { crateName? := some crate, externals := p.externals }
  distinct : (crate :: p.externals.map Crate.name).Nodup

theorem CratesOnly.add_external_crate {crate name : String} (hp : CratesOnly crate p)
    (hname : name ≠ crate) : CratesOnly crate (p.addExternalCrate name).2 := by
  unfold Program.addExternalCrate
  cases hfind : p.findCrate name with
  | some known => exact hp
  | none =>
      have hfresh : name ∉ p.externals.map Crate.name := by
        unfold Program.findCrate at hfind
        rw [List.find?_eq_none] at hfind
        intro hmem
        obtain ⟨known, hknown, rfl⟩ := List.mem_map.mp hmem
        exact hfind known (List.mem_append_right _ hknown) (decide_eq_true rfl)
      refine ⟨?_, ?_⟩
      · rw [hp.only]
      · have hdistinct := hp.distinct
        rw [List.nodup_cons] at hdistinct ⊢
        simp only [List.map_append, List.map_cons, List.map_nil, List.mem_append,
          List.mem_singleton, not_or]
        refine ⟨⟨hdistinct.1, hname.symm⟩, ?_⟩
        refine List.nodup_append.mpr ⟨hdistinct.2, by simp, fun a ha b hb => ?_⟩
        rintro rfl
        exact hfresh (List.mem_singleton.mp hb ▸ ha)

theorem load_crates_only {crate : String} {items : List (Spanned ItemTree)}
    (hp : CratesOnly crate p) (h : (loadCrates crate items).run p = .ok ((), q)) :
    CratesOnly crate q := by
  induction items generalizing p with
  | nil =>
      cases h
      exact hp
  | cons item items ih =>
      unfold loadCrates at h
      split at h
      next name signatures _ =>
        split at h
        next => cases h
        next hname =>
          obtain ⟨_, middle, hadd, h⟩ := LoadStep.run_bind_eq_ok.mp h
          obtain rfl := LoadStep.run_modify_eq_ok.mp hadd
          exact ih (hp.add_external_crate hname) h
      next => exact ih hp h

/-- What holds of the program of some items, when `l` is what the items share. -/
structure Loaded (l : Loader) (items : List (Spanned ItemTree)) (p : Program) : Prop where
  registered : p.Registered
  crateName : p.crateName? = some l.scope.localCrate
  crates : l.scope.crates = l.scope.localCrate :: p.externals.map Crate.name
  distinct : l.scope.crates.Nodup
  no_types : l.scope.types = []
  interned : p.interned = {}
  found : ∀ {id fn}, p.fnDecl id = some fn →
    ∃ item ∈ items, ∃ src, Declares l item src ∧ src.lower = .ok fn
  entered : ∀ {item src}, item ∈ items → Declares l item src →
    ∃ fn, src.lower = .ok fn ∧ p.fnDecl src.defId = some fn
  impl_method : ∀ {traitDef selfTy impl}, p.findImpl traitDef selfTy = some impl →
    ∀ method ∈ impl.methods, ∃ fn, p.fnDecl method.2 = some fn ∧ fn.traitDef = none

theorem loaded_of_items {file : Option String} {items : List (Spanned ItemTree)}
    (h : loadItems file items = .ok p) : ∃ l, l.file = file ∧ Loaded l items p := by
  unfold loadItems at h
  obtain ⟨declared, _, h⟩ := Outcome.bind_eq_ok.mp h
  obtain ⟨⟨⟨⟩, base⟩, hcrates, h⟩ := Outcome.bind_eq_ok.mp h
  obtain ⟨⟨⟨⟩, last⟩, hitems, h⟩ := Outcome.bind_eq_ok.mp h
  obtain rfl := Outcome.pure_eq_ok.mp h
  have hempty : CratesOnly (declared.getD defaultCrate)
      { crateName? := some (declared.getD defaultCrate) } :=
    ⟨rfl, by simp⟩
  -- the crates come first: no path is resolved before their names are known
  have hbase := load_crates_only hempty hcrates
  have hregisters := Registers.for_m (fun item _ p q hrun => Registers.load_item hrun) hitems
  have hregistered : base.Registered := by
    rw [hbase.only]
    exact { Program.Registered.empty (some (declared.getD defaultCrate)) with }
  refine ⟨⟨file, ⟨declared.getD defaultCrate,
      declared.getD defaultCrate :: base.externals.map Crate.name, []⟩⟩, rfl,
    hregisters.registered hregistered, ?_, ?_, hbase.distinct, rfl, ?_, ?_, ?_, ?_⟩
  · rw [hregisters.grows.crateName, hbase.only]
  · rw [hregisters.grows.externals]
  · rw [hregisters.grows.interned, hbase.only]
  · intro id fn hfound
    rcases hregisters.found hfound with hfound | ⟨src, ⟨item, hitem, hdeclares⟩, hlower⟩
    · rw [hbase.only] at hfound
      cases hfound
    · exact ⟨item, hitem, src, hdeclares, hlower⟩
  · intro item src hitem hdeclares
    exact hregisters.entered ⟨item, hitem, hdeclares⟩
  · intro traitDef selfTy impl hfound
    rcases hregisters.impl_method hfound with hfound | hmethods
    · rw [hbase.only] at hfound
      cases hfound
    · exact hmethods

/-- A text is accepted exactly if it is read as items that are accepted. -/
theorem load_text_eq_ok {file : Option String} {text : List Char} :
    loadText file text = .ok p ↔
      ∃ items, readText text = .ok items ∧ loadItems file items = .ok p := by
  rw [loadText, Outcome.bind_eq_ok]
  simp only [Outcome.map_error_eq_ok]

/-- An accepted text is the program of the items that it is read as. -/
theorem loaded_of_text {file : Option String} {text : List Char}
    (h : loadText file text = .ok p) :
    ∃ items l, readText text = .ok items ∧ l.file = file ∧ Loaded l items p := by
  obtain ⟨items, hread, hitems⟩ := load_text_eq_ok.mp h
  obtain ⟨l, hfile, hloaded⟩ := loaded_of_items hitems
  exact ⟨items, l, hread, hfile, hloaded⟩

/-- A text whose program passes a test is accepted. -/
theorem exists_of_load_any {file : Option String} {text : List Char} {test : Program → Bool}
    (h : (loadText file text).toOption.any test = true) :
    ∃ p, loadText file text = .ok p ∧ test p = true :=
  Outcome.exists_of_any h

/-- A text that is written as a string is accepted if its characters are. -/
theorem exists_of_load_chars {file : Option String} {cs : List Char} {test : Program → Bool}
    (h : (loadText file cs).toOption.any test = true) :
    ∃ p, loadText file (String.ofList cs).toList = .ok p ∧ test p = true :=
  exists_of_load_any
    (Outcome.test_of_chars (f := fun text => (loadText file text).toOption.any test) h)

/-- A text that is written as a string is read as items if its characters are. -/
theorem exists_of_read_chars {cs : List Char} {test : List (Spanned ItemTree) → Bool}
    (h : (readText cs).toOption.any test = true) :
    ∃ items, readText (String.ofList cs).toList = .ok items ∧ test items = true :=
  Outcome.exists_of_any
    (Outcome.test_of_chars (f := fun text => (readText text).toOption.any test) h)

namespace Loaded

variable {items : List (Spanned ItemTree)} {id : DefId} {fn : FnDecl}

/-- The bodies of a loaded program fit their declarations. -/
theorem fits (hp : Loaded l items p) (hfound : p.fnDecl id = some fn) {body : Body}
    (hbody : fn.body = some body) : body.Fits := by
  obtain ⟨_, _, src, _, hlower⟩ := hp.found hfound
  exact (FnSource.lower_fits hlower).body body hbody

/-- The methods of traits have parameters. -/
theorem generics_of_trait (hp : Loaded l items p) (hfound : p.fnDecl id = some fn)
    (htrait : fn.traitDef.isSome = true) : fn.generics ≠ [] := by
  obtain ⟨_, _, src, hdeclares, hlower⟩ := hp.found hfound
  obtain ⟨written, hgenerics⟩ := (FnSource.lower_fits hlower).implicit
  have himplicit := hdeclares.implicit_ne_nil ((FnSource.lower_fits hlower).traitDef ▸ htrait)
  rw [hgenerics]
  exact fun hnil => himplicit (List.append_eq_nil_iff.mp hnil).1

/-- The lookups of a loaded program are coherent. -/
theorem coherent (hp : Loaded l items p) : p.environment.Coherent where
  def_id hfound := hp.registered.def_id hfound
  impl_fn {_ _ method _ _ _} himpl hfound := by
    simp only [Environment.implMethod?, Option.bind_eq_bind, Option.bind_eq_some_iff,
      Option.pure_def, Option.some.injEq, Prod.mk.injEq] at himpl
    obtain ⟨impl, hfind, target, hmethod, rfl, rfl⟩ := himpl
    obtain ⟨before, behind, hmethods, _⟩ := List.lookup_eq_some_iff.mp hmethod
    obtain ⟨known, hknown, htrait⟩ := hp.impl_method hfind (method, target) (by simp [hmethods])
    rw [Option.some.inj (hfound.symm.trans hknown)]
    exact htrait

/-- A failure to resolve in a loaded program is a finding. -/
theorem resolution_fault (hp : Loaded l items p) {args : List Ty} {fault : ResolutionFault}
    (h : p.environment.resolve id args = .error fault) :
    fault.toFault = .check { kind := .resolution, message := fault.message } := by
  refine ResolutionFault.to_fault_of_ne ?_
  rintro rfl
  exact Environment.resolve_ne_no_self (fun hfound => hp.generics_of_trait hfound) h

end Loaded

end MirAudit.Source
