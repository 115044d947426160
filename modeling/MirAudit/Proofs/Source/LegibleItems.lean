import MirAudit.Proofs.Source.Concrete
import MirAudit.Proofs.Source.Legible
import MirAudit.Proofs.Source.ReadBack

/-!
# What a text declares is legible

The functions that are registered for an accepted text have legible symbols, and the types in their
bodies are legible: `Loaded.legible`. The names that are written were read as names, see
`Ensures.legible_item`, and the scopes of bodies bind names to legible types.
-/

namespace MirAudit

open Source

namespace Source

/-! ## Items as written -/

/-- The names in the signature are spelled as such. -/
def SignatureTree.Spelled (tree : SignatureTree) : Prop :=
  IsName tree.name.text ∧ ∀ param ∈ tree.generics, IsName param.value.name.text

/-- The types in the body are legible. -/
def BodyTree.Legible (tree : BodyTree) : Prop :=
  ∀ ty ∈ tree.types, ty.Legible

/-- The names in the signature are spelled as such, and the types in the body are legible. -/
def MethodTree.Legible (tree : MethodTree) : Prop :=
  tree.signature.Spelled ∧ ∀ body ∈ tree.body, body.value.Legible

/-- The names that the item declares are spelled as such. So are those in its impl, and in the types
of its bodies. -/
def ItemTree.Legible : ItemTree → Prop
  | .crate _ => True
  | .struct name _ => IsName name.text
  | .externCrate name signatures =>
    IsName name.text ∧ ∀ signature ∈ signatures, signature.value.Spelled
  | .externFn signature => signature.Spelled
  | .trait name methods => IsName name.text ∧ ∀ method ∈ methods, method.value.Legible
  | .impl path selfTy methods => path ≠ [] ∧ (∀ segment ∈ path, segment.Legible) ∧
    selfTy.Legible ∧ ∀ method ∈ methods, method.value.Legible
  | .fn _ signature body => signature.Spelled ∧ body.value.Legible

namespace Ensures

section Bodies

variable {T : TypeTree → Prop} {G : SegmentTree → Prop} (h : Inherited T G)
include h

theorem operand_types :
    Ensures (readAs T G) Syntax.operand fun operand => ∀ ty ∈ operand.types, T ty :=
  .choice (.map (.trivially _) fun _ _ => nofun) (.choice (.map (.trivially _) fun _ _ => nofun)
    (.choice (.map₂ (.trivially _) (.seq_right (.mark .colon) ty) fun _ _ _ hty =>
        List.forall_mem_singleton.mpr hty)
      (.map₂ (.seq_right (.kw .fndefKw) path) type_args fun _ _ hpath hargs =>
        List.forall_mem_singleton.mpr (h.fnDef hpath.1 hpath.2 hargs))))

theorem rvalue_types :
    Ensures (readAs T G) Syntax.rvalue fun rvalue => ∀ ty ∈ rvalue.types, T ty := by
  refine .choice ?binary (.choice ?ref (.choice ?cast (.choice ?aggregate ?use)))
  case binary =>
    exact .map₃ (.trivially _) (.seq_right (.mark .parenOpen) (operand_types h))
      (.seq_left (.seq_right (.mark .comma) (operand_types h)) (.mark .parenClose))
      fun _ _ _ _ hlhs hrhs => List.forall_mem_append.mpr ⟨hlhs, hrhs⟩
  case ref => exact .map₂ (.trivially _) (.trivially _) fun _ _ _ _ => nofun
  case cast =>
    exact .map₂ (.seq_right (.seq_right (.kw .castKw) (.mark .parenOpen)) (operand_types h))
      (.seq_left (.seq_right (.kw .asKw) ty) (.mark .parenClose)) fun _ _ hoperand hty =>
        List.forall_mem_append.mpr ⟨hoperand, List.forall_mem_singleton.mpr hty⟩
  case aggregate =>
    exact .map₂ (.seq_right (.kw .aggregateKw) ty) (.parenthesised (operand_types h))
      fun _ _ hty hoperands => List.forall_mem_cons.mpr ⟨hty, List.forall_mem_flatMap.mpr hoperands⟩
  case use => exact .map (operand_types h) fun _ hoperand => hoperand

theorem statement_types :
    Ensures (readAs T G) Syntax.statement fun statement => ∀ ty ∈ statement.types, T ty :=
  .choice (.map₂ (.trivially _)
      (.seq_left (.seq_right (.mark .assign) (rvalue_types h)) (.mark .semicolon))
      fun _ _ _ hrvalue => hrvalue)
    (.choice (.map (.trivially _) fun _ _ => nofun) (.choice (.map (.trivially _) fun _ _ => nofun)
      (.giving (.trivially _) nofun)))

theorem terminator_types :
    Ensures (readAs T G) Syntax.terminator fun terminator => ∀ ty ∈ terminator.types, T ty := by
  refine .choice (.map (.trivially _) fun _ _ => nofun) (.choice (.giving (.trivially _) nofun)
    (.choice (.giving (.trivially _) nofun)
      (.choice ?switch (.choice ?call (.choice ?drop ?assert)))))
  case switch =>
    exact .map₃ (.seq_left (.seq_right (.seq_right (.kw .switchIntKw) (.mark .parenOpen))
      (operand_types h)) (.mark .parenClose)) (.trivially _) (.trivially _)
      fun _ _ _ hdiscr _ _ => hdiscr
  case call =>
    exact .map₄ (.trivially _) (.seq_right (.mark .assign) (operand_types h))
      (.parenthesised (operand_types h)) (.trivially _) fun _ _ _ _ _ hfunc hargs _ =>
        List.forall_mem_append.mpr ⟨hfunc, List.forall_mem_flatMap.mpr hargs⟩
  case drop => exact .map₂ (.trivially _) (.trivially _) fun _ _ _ _ => nofun
  case assert =>
    exact .map₃ (.seq_right (.seq_right (.kw .assertKw) (.mark .parenOpen)) (operand_types h))
      (.trivially _) (.trivially _) fun _ _ _ hcond _ _ => hcond

/-- What holds of every type that is read holds of the types in a body. -/
theorem body_types :
    Ensures (readAs T G) Syntax.body fun body => ∀ ty ∈ body.value.types, T ty := by
  have hlocal : Ensures (readAs T G) Syntax.localDecl fun decl => T decl.ty :=
    .map₃ (.trivially _) (.trivially _) (.seq_left (.seq_right (.mark .colon) ty)
      (.mark .semicolon)) fun _ _ _ _ _ hty => hty
  have hblock : Ensures (readAs T G) Syntax.block fun block => ∀ ty ∈ block.types, T ty :=
    .map₃ (.trivially _) (.many (statement_types h))
      (.seq_left (terminator_types h) (.mark .braceClose)) fun _ _ _ _ hstatements hterminator =>
        List.forall_mem_append.mpr ⟨List.forall_mem_flatMap.mpr hstatements, hterminator⟩
  refine .spanned (G := fun body => ∀ ty ∈ body.types, T ty) ?_ fun _ hbody => hbody
  exact .map₂ (.seq_right (.mark .braceOpen) (.many hlocal))
    (.seq_left (.many hblock) (.mark .braceClose)) fun _ _ hlocals hblocks =>
      List.forall_mem_append.mpr
        ⟨List.forall_mem_map.mpr hlocals, List.forall_mem_flatMap.mpr hblocks⟩

end Bodies

section Items

variable {S : (n : Syntax.Rule) → n.Tree → Prop}

/-- Every signature is spelled by the tokens that are read. -/
theorem signature_spelled : Ensures S Syntax.signature SignatureTree.Spelled := by
  have hparam : Ensures S Syntax.genericParam fun param => IsName param.value.name.text :=
    .spanned (G := fun param => IsName param.name.text)
      (.map₂ .name (.trivially _) fun _ _ hname _ => hname) fun _ hname => hname
  exact .map₄ .name (.or_nothing (.angled hparam) nofun) (.trivially _) (.trivially _)
    fun _ _ _ _ hname hgenerics _ _ => ⟨hname, hgenerics⟩

/-- An item that is read is legible. -/
theorem legible_item : Ensures (readAs TypeTree.Legible SegmentTree.Legible) Syntax.item
    fun item => item.value.Legible := by
  have hsignature := signature_spelled (S := readAs TypeTree.Legible SegmentTree.Legible)
  have hbody := body_types inherited_legible
  have hextern : Ensures (readAs TypeTree.Legible SegmentTree.Legible) Syntax.externSignature
      fun signature => signature.value.Spelled :=
    .spanned (.seq_left (.seq_right (.kw .fnKw) hsignature) (.mark .semicolon)) fun _ h => h
  have htrait : Ensures (readAs TypeTree.Legible SegmentTree.Legible) Syntax.traitMethod
      fun method => method.value.Legible :=
    .spanned (.map₂ (K := MethodTree.Legible) (.seq_right (.kw .fnKw) hsignature)
      (.choice (.giving (H := fun body? => ∀ body ∈ body?, body.value.Legible) (.trivially _) nofun)
        (.map hbody fun _ hbody => fun _ hmem => Option.mem_some_iff.mp hmem ▸ hbody))
      fun _ _ hsignature hbody => ⟨hsignature, hbody⟩) fun _ h => h
  have himpl : Ensures (readAs TypeTree.Legible SegmentTree.Legible) Syntax.implMethod
      fun method => method.value.Legible :=
    .spanned (.map₂ (K := MethodTree.Legible) (.seq_right (.kw .fnKw) hsignature)
      (.map (K := fun body? => ∀ body ∈ body?, body.value.Legible) hbody
        fun _ hbody => fun _ hmem => Option.mem_some_iff.mp hmem ▸ hbody)
      fun _ _ hsignature hbody => ⟨hsignature, hbody⟩) fun _ h => h
  refine .spanned (G := ItemTree.Legible)
    (.choice ?crate (.choice ?foreign (.choice ?struct (.choice ?trait (.choice ?impl ?fn)))))
    fun _ h => h
  case crate => exact .map (.trivially _) fun _ _ => trivial
  case foreign =>
    exact .seq_right (.kw .externKw) (.choice
      (.map₂ (.seq_left (.seq_right (.kw .crateKw) .name) (.mark .braceOpen))
        (.seq_left (.many hextern) (.mark .braceClose)) fun _ _ hname hall => ⟨hname, hall⟩)
      (.map (.seq_left (.seq_right (.kw .fnKw) hsignature) (.mark .semicolon)) fun _ h => h))
  case struct =>
    exact .map₂ (.seq_right (.kw .structKw) .name) (.trivially _) fun _ _ hname _ => hname
  case trait =>
    exact .map₂ (.seq_left (.seq_right (.kw .traitKw) .name) (.mark .braceOpen))
      (.seq_left (.many htrait) (.mark .braceClose)) fun _ _ hname hall => ⟨hname, hall⟩
  case impl =>
    exact .map₃ (.seq_right (.kw .implKw) path)
      (.seq_left (.seq_right (.kw .forKw) ty) (.mark .braceOpen))
      (.seq_left (.many himpl) (.mark .braceClose)) fun _ _ _ hpath hself hall =>
        ⟨hpath.1, hpath.2, hself, hall⟩
  case fn =>
    exact .map₃ (.trivially _) (.seq_right (.kw .fnKw) hsignature) hbody
      fun _ _ _ _ hsignature hbody => ⟨hsignature, hbody⟩

end Items

end Ensures

/-! ## Scopes -/

namespace Scope.Legible

variable {s : Scope}

/-- A scope stays legible when a name is bound to a legible type. -/
theorem bind (hs : s.Legible) (name : String) {ty : Ty} (hty : ty.Legible) :
    (s.bind name ty).Legible where
  localCrate := hs.localCrate
  crates := hs.crates
  bound other found h := by
    change ((name, ty) :: s.types).lookup other = some found at h
    rw [lookup_cons_eq] at h
    split at h
    next =>
      cases h
      exact hty
    next => exact hs.bound other found h

/-- A scope stays legible when names are bound to themselves. -/
theorem bind_selves (hs : s.Legible) {names : List String}
    (hnames : ∀ name ∈ names, IsName name.toList) : (s.bindSelves names).Legible := by
  induction names generalizing s with
  | nil => exact hs
  | cons name names ih =>
      obtain ⟨hname, hrest⟩ := List.forall_mem_cons.mp hnames
      exact ih (hs.bind name (.node hname nofun)) hrest

end Scope.Legible

section Items

variable {file : Option String} {items : List (Spanned ItemTree)} {p : Program} {ts : List Token}

/-- Items that are read from spelled tokens are legible. -/
theorem legible_items (hts : ∀ tok ∈ ts, tok.Spelled)
    (h : Gram.Derives Syntax.definition Syntax.program ts items) :
    ∀ item ∈ items, item.value.Legible :=
  Ensures.derives (Ensures.definition inherited_legible) (.many .legible_item) hts h

/-- An external crate that is read from spelled tokens has a name. -/
theorem is_name_of_external (hts : ∀ tok ∈ ts, tok.Spelled)
    (h : Gram.Derives Syntax.definition Syntax.program ts items) :
    ∀ item ∈ items, ∀ name ∈ externalName? item, IsName name.toList := by
  rintro ⟨value, region⟩ hitem crate hname
  have hlegible := legible_items hts h _ hitem
  cases value with
  | externCrate name signatures =>
      obtain rfl : name.string = crate := Option.some.inj hname
      rw [Token.string, String.toList_ofList]
      exact hlegible.1
  | crate | externFn | struct | trait | impl | fn => cases hname

/-- The scope around the items of an accepted text is legible. -/
theorem legible_loader_of (hts : ∀ tok ∈ ts, tok.Spelled)
    (h : Gram.Derives Syntax.definition Syntax.program ts items)
    (hload : loadItems file items = .ok p) : (loaderOf file items).scope.Legible where
  localCrate := is_name_local_crate_of hts h
  crates crate hcrate := by
    rcases (load_items_eq_ok.mp hload).1.mem_crates.mp hcrate with rfl | hextern
    · exact is_name_local_crate_of hts h
    · obtain ⟨item, hitem, hname⟩ := List.mem_filterMap.mp hextern
      exact is_name_of_external hts h item hitem crate hname
  bound := nofun

end Items

/-! ## Declarations -/

/-- The symbol of the function is legible, and so is what its body sees and says. -/
structure FnSource.Legible (src : FnSource) : Prop where
  crate : IsName src.defId.crate.toList
  path : LegiblePath src.defId.path
  outer : src.outer.Legible
  written : ∀ name ∈ src.written, IsName name.toList
  body : ∀ body ∈ src.body, body.value.Legible

section Declared

variable {l : Loader} {item : Spanned ItemTree} {src : FnSource}

theorem is_name_string {tok : Token} (h : IsName tok.text) : IsName tok.string.toList := by
  rwa [Token.string, String.toList_ofList]

theorem SignatureTree.Spelled.written {tree : SignatureTree} (h : tree.Spelled) :
    ∀ name ∈ tree.generics.map fun param => param.value.name.string, IsName name.toList := by
  intro name hname
  obtain ⟨param, hparam, rfl⟩ := List.mem_map.mp hname
  exact is_name_string (h.2 param hparam)

/-- What a legible item declares is legible. -/
theorem Declares.legible (h : Declares l item src) (hl : l.scope.Legible)
    (hitem : item.value.Legible) : src.Legible := by
  have hpath {tok : Token} (h : IsName tok.text) : LegibleSegment tok.string :=
    .name (is_name_string h)
  cases h with
  | ofCrate hmem =>
      have hspelled := hitem.2 _ hmem
      exact ⟨is_name_string hitem.1, .segment (hpath hspelled.1), hl, hspelled.written, nofun⟩
  | foreign => exact ⟨hl.localCrate, .segment (hpath hitem.1), hl, hitem.written, nofun⟩
  | ofTrait hmem =>
      have hmethod := hitem.2 _ hmem
      have hself : (Ty.param "Self").Legible := .node (by decide : IsName "Self".toList) nofun
      exact ⟨hl.localCrate, .append (.segment (hpath hitem.1)) (hpath hmethod.1.1),
        hl.bind "Self" hself, hmethod.1.written, hmethod.2⟩
  | ofImpl htrait hself hmem =>
      obtain ⟨hne, hsegments, hty, hmethods⟩ := hitem
      have hmethod := hmethods _ hmem
      obtain ⟨texts, htexts, hdef⟩ := Outcome.bind_eq_ok.mp htrait
      obtain rfl := Outcome.pure_eq_ok.mp hdef
      obtain ⟨hsome, hall⟩ := segments_legible hl hne hsegments htexts
      have hself := hty _ hl _ hself
      have howner := impl_segment_legible hself (def_of_legible hl hsome hall).2
      exact ⟨hl.localCrate, .append (.segment howner) (hpath hmethod.1.1), hl.bind "Self" hself,
        hmethod.1.written, hmethod.2⟩
  | free =>
      exact ⟨hl.localCrate, .segment (hpath hitem.1.1), hl, hitem.1.written,
        fun _ hmem => Option.mem_some_iff.mp hmem ▸ hitem.2⟩

/-- The body of a legible declaration has legible types. -/
theorem FnSource.Legible.types (h : src.Legible) {fn : FnDecl} (hlower : src.lower = .ok fn)
    {body : Body} (hbody : fn.body = some body) : ∀ ty ∈ body.types, ty.Legible := by
  obtain ⟨tree, htree⟩ : ∃ tree, src.body = some tree := by
    rw [← Option.isSome_iff_exists, ← (lower_fits hlower).hasBody, hbody]
    rfl
  obtain ⟨_, _, _, lowered, -, -, -, hlowered, hsome, -⟩ := lower_some_eq_ok htree hlower
  obtain rfl := Option.some.inj (hsome.symm.trans hbody)
  exact types_legible (h.outer.bind_selves h.written) (h.body tree htree)
    (BodyTree.lower_types hlowered)

end Declared

end Source

/-- The functions have legible symbols, and the types in their bodies are legible. -/
structure Program.Legible (p : Program) : Prop where
  crate : ∀ {id fn}, p.fnDecl id = some fn → IsName id.crate.toList
  path : ∀ {id fn}, p.fnDecl id = some fn → LegiblePath id.path
  types : ∀ {id fn body}, p.fnDecl id = some fn → fn.body = some body →
    ∀ ty ∈ body.types, ty.Legible

/-- A text of legible items declares legible functions. -/
theorem Source.Loaded.legible {l : Loader} {items : List (Spanned ItemTree)} {p : Program}
    (hp : Loaded l items p) (hl : l.scope.Legible)
    (hitems : ∀ item ∈ items, item.value.Legible) : p.Legible := by
  have hsrc : ∀ {id fn}, p.fnDecl id = some fn →
      ∃ src : FnSource, src.Legible ∧ src.lower = .ok fn ∧ src.defId = id := by
    intro id fn hfn
    obtain ⟨item, hitem, src, hdeclares, hlower⟩ := hp.found hfn
    refine ⟨src, hdeclares.legible hl (hitems item hitem), hlower, ?_⟩
    rw [← (FnSource.lower_fits hlower).defId]
    exact hp.registered.def_id hfn
  constructor
  · intro id fn hfn
    obtain ⟨src, hlegible, -, rfl⟩ := hsrc hfn
    exact hlegible.crate
  · intro id fn hfn
    obtain ⟨src, hlegible, -, rfl⟩ := hsrc hfn
    exact hlegible.path
  · intro id fn body hfn hbody
    obtain ⟨src, hlegible, hlower, -⟩ := hsrc hfn
    exact hlegible.types hlower hbody

/-- An accepted text declares legible functions, with a legible scope around them. -/
theorem Source.legible_of_text {file : Option String} {text : List Char} {p : Program}
    (h : loadText file text = .ok p) :
    ∃ items l, Loaded l items p ∧ l.scope.Legible ∧ p.Legible := by
  obtain ⟨items, hread, hload⟩ := load_text_eq_ok.mp h
  have hspelled := spelled_of_read hread
  have hderives := Reference.derives_program_iff.mp (read_text_eq_ok.mp hread).2
  have hp := loaded_loader_of hload
  have hscope := legible_loader_of hspelled hderives hload
  exact ⟨items, _, hp, hscope, hp.legible hscope (legible_items hspelled hderives)⟩

end MirAudit
