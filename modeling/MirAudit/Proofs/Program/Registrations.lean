import Mathlib.Data.List.Nodup
import Mathlib.Data.List.Perm.Basic
import MirAudit.Proofs.Program.Registered

/-!
# Registrations in any order

Whether registrations one after another succeed depends on what is registered and not on the order:
`exists_adds_all_iff`. So do the functions, the impls and the entry point of the program that they
give, see `Program.Holds`.
-/

namespace MirAudit

/-! ## Declarations up to spans -/

/-- The function without its span. -/
def FnDecl.withoutSpan (fn : FnDecl) : FnDecl :=
  { fn with span := {} }

/-- What an impl is found by: its trait and its type. -/
def TraitImpl.key (impl : TraitImpl) : DefId × Ty :=
  (impl.traitDef, impl.selfTy)

/-- Something to be registered; a function may be the entry point. -/
inductive Registration where
  | fn (decl : FnDecl) (entry : Bool)
  | struct (decl : StructDecl)
  | trait (decl : TraitDecl)
  | impl (decl : TraitImpl)

namespace Registration

/-- The registration without spans. -/
def withoutSpans : Registration → Registration
  | .fn decl entry => .fn decl.withoutSpan entry
  | .struct decl => .struct decl.unspanned
  | .trait decl => .trait decl.unspanned
  | .impl decl => .impl decl.unspanned

/-- The function that is registered. -/
def fn? : Registration → Option FnDecl
  | .fn decl _ => some decl
  | _ => none

/-- The entry point that is registered. -/
def entry? : Registration → Option FnDecl
  | .fn decl true => some decl
  | _ => none

/-- The impl that is registered. -/
def impl? : Registration → Option TraitImpl
  | .impl decl => some decl
  | _ => none

/-- The registration succeeds and turns `p` into `q`. -/
def Adds (p q : Program) : Registration → Prop
  | .fn decl entry => p.addFn decl entry = (.ok (), q)
  | .struct decl => p.addStruct decl = q
  | .trait decl => p.addTrait decl = q
  | .impl decl => p.addImpl decl = (.ok (), q)

end Registration

/-- Some registrations succeed one after another and turn `p` into `q`. -/
def AddsAll (p q : Program) : List Registration → Prop
  | [] => p = q
  | r :: rs => ∃ middle, r.Adds p middle ∧ AddsAll middle q rs

/-- A registration keeps what was registered before. -/
theorem Registration.Adds.extends {p q : Program} {r : Registration} (h : r.Adds p q) :
    p.Extends q := by
  cases r with
  | fn decl entry => exact Program.extends_add_fn h
  | struct decl => exact h ▸ Program.extends_add_struct p decl
  | trait decl => exact h ▸ Program.extends_add_trait p decl
  | impl decl => exact Program.extends_add_impl h

/-- Registrations one after another keep what was registered before. -/
theorem AddsAll.extends {p q : Program} {rs : List Registration} (h : AddsAll p q rs) :
    p.Extends q := by
  induction rs generalizing p with
  | nil => exact h ▸ .refl p
  | cons r rs ih =>
      obtain ⟨middle, hfirst, hrest⟩ := h
      exact (Registration.Adds.extends hfirst).trans (ih hrest)

/-- Registrations in two parts go through a program between them. -/
theorem adds_all_append {p q : Program} {rs more : List Registration} :
    AddsAll p q (rs ++ more) ↔ ∃ middle, AddsAll p middle rs ∧ AddsAll middle q more := by
  induction rs generalizing p with
  | nil => simp [AddsAll]
  | cons r rs ih =>
      simp only [List.cons_append, AddsAll, ih]
      constructor
      · intro h
        obtain ⟨first, hfirst, middle, hmiddle, hmore⟩ := h
        exact ⟨middle, ⟨first, hfirst, hmiddle⟩, hmore⟩
      · intro h
        obtain ⟨middle, ⟨first, hfirst, hmiddle⟩, hmore⟩ := h
        exact ⟨first, hfirst, middle, hmiddle, hmore⟩

/-! ## What can be registered together -/

/-- The registrations do not conflict: no function and no impl comes twice, extern functions have no
body, and there is at most one entry point, an item of the local crate. -/
structure Consistent (crate : String) (rs : List Registration) : Prop where
  fns : ((rs.filterMap Registration.fn?).map FnDecl.defId).Nodup
  impls : ((rs.filterMap Registration.impl?).map TraitImpl.key).Nodup
  entries : (rs.filterMap Registration.entry?).length ≤ 1
  extern_body : ∀ fn ∈ rs.filterMap Registration.fn?, fn.isExtern = true → fn.body = none
  entry_item : ∀ fn ∈ rs.filterMap Registration.entry?,
    fn.defId.crate = crate ∧ fn.body.isSome = true

/-- Nothing conflicts with nothing. -/
theorem consistent_nil (crate : String) : Consistent crate [] where
  fns := List.nodup_nil
  impls := List.nodup_nil
  entries := Nat.zero_le 1
  extern_body _ hfn := absurd hfn List.not_mem_nil
  entry_item _ hfn := absurd hfn List.not_mem_nil

/-- Whether registrations conflict does not depend on their order. -/
theorem Consistent.perm {crate : String} {rs rs' : List Registration} (h : Consistent crate rs)
    (hperm : rs.Perm rs') : Consistent crate rs' where
  fns := ((hperm.filterMap _).map _).nodup_iff.mp h.fns
  impls := ((hperm.filterMap _).map _).nodup_iff.mp h.impls
  entries := (hperm.filterMap _).length_eq ▸ h.entries
  extern_body fn hfn := h.extern_body fn ((hperm.filterMap _).mem_iff.mpr hfn)
  entry_item fn hfn := h.entry_item fn ((hperm.filterMap _).mem_iff.mpr hfn)

/-- Some of the registrations do not conflict if all of them do not. -/
theorem Consistent.of_sublist {crate : String} {rs rs' : List Registration}
    (h : Consistent crate rs') (hsub : rs.Sublist rs') : Consistent crate rs where
  fns := h.fns.sublist ((hsub.filterMap _).map _)
  impls := h.impls.sublist ((hsub.filterMap _).map _)
  entries := Nat.le_trans (hsub.filterMap _).length_le h.entries
  extern_body fn hfn := h.extern_body fn ((hsub.filterMap _).mem hfn)
  entry_item fn hfn := h.entry_item fn ((hsub.filterMap _).mem hfn)

/-- What is registered behind something else does not conflict with it if it consists of functions
of other crates, and does not conflict with the functions of other crates in front. -/
theorem Consistent.append_external {crate : String} {rs external more : List Registration}
    (h : Consistent crate rs) (hexternal : Consistent crate (external ++ more))
    (hmore : ∀ r ∈ more, ∃ fn, r = .fn fn false ∧ fn.defId.crate ≠ crate)
    (hrs : ∀ fn ∈ rs.filterMap Registration.fn?, fn.defId.crate ≠ crate →
      fn ∈ external.filterMap Registration.fn?) :
    Consistent crate (rs ++ more) := by
  have hown := hexternal.of_sublist (List.sublist_append_right external more)
  have hmoreFns : ∀ fn ∈ more.filterMap Registration.fn?, fn.defId.crate ≠ crate := by
    intro fn hfn
    obtain ⟨r, hr, hsome⟩ := List.mem_filterMap.mp hfn
    obtain ⟨_, rfl, hcrate⟩ := hmore r hr
    obtain rfl := Option.some.inj hsome
    exact hcrate
  have himpls : more.filterMap Registration.impl? = [] := by
    refine List.filterMap_eq_nil_iff.mpr fun r hr => ?_
    obtain ⟨_, rfl, -⟩ := hmore r hr
    rfl
  have hentries : more.filterMap Registration.entry? = [] := by
    refine List.filterMap_eq_nil_iff.mpr fun r hr => ?_
    obtain ⟨_, rfl, -⟩ := hmore r hr
    rfl
  refine ⟨?fns, ?_, ?_, ?_, ?_⟩
  case fns =>
    rw [List.filterMap_append, List.map_append]
    refine List.nodup_append.mpr ⟨h.fns, hown.fns, ?_⟩
    rintro _ hid _ hid' rfl
    obtain ⟨fn, hfn, rfl⟩ := List.mem_map.mp hid
    obtain ⟨fn', hfn', hsame⟩ := List.mem_map.mp hid'
    -- a function with the identity of an external one is external
    have hfront := hrs fn hfn (hsame ▸ hmoreFns fn' hfn')
    have hdistinct := hexternal.fns
    rw [List.filterMap_append, List.map_append] at hdistinct
    exact (List.nodup_append.mp hdistinct).2.2 _ (List.mem_map_of_mem hfront) _
      (List.mem_map_of_mem hfn') hsame.symm
  · rw [List.filterMap_append, himpls, List.append_nil]
    exact h.impls
  · rw [List.filterMap_append, hentries, List.append_nil]
    exact h.entries
  · rw [List.filterMap_append]
    exact List.forall_mem_append.mpr ⟨h.extern_body, hown.extern_body⟩
  · rw [List.filterMap_append, hentries, List.append_nil]
    exact h.entry_item

section Spans

variable (rs : List Registration)

/-- The functions of the registrations lose their spans with them. -/
theorem filter_map_fn_without_spans :
    (rs.map Registration.withoutSpans).filterMap Registration.fn? =
      (rs.filterMap Registration.fn?).map FnDecl.withoutSpan := by
  rw [List.filterMap_map, List.map_filterMap]
  congr 1
  funext r
  cases r <;> rfl

/-- The entry points of the registrations lose their spans with them. -/
theorem filter_map_entry_without_spans :
    (rs.map Registration.withoutSpans).filterMap Registration.entry? =
      (rs.filterMap Registration.entry?).map FnDecl.withoutSpan := by
  rw [List.filterMap_map, List.map_filterMap]
  congr 1
  funext r
  rcases r with ⟨decl, _ | _⟩ | _ | _ | _ <;> rfl

/-- The impls of the registrations lose their spans with them. -/
theorem filter_map_impl_without_spans :
    (rs.map Registration.withoutSpans).filterMap Registration.impl? =
      (rs.filterMap Registration.impl?).map TraitImpl.unspanned := by
  rw [List.filterMap_map, List.map_filterMap]
  congr 1
  funext r
  cases r <;> rfl

end Spans

/-- Whether registrations conflict does not depend on their spans. -/
theorem consistent_without_spans {crate : String} {rs : List Registration} :
    Consistent crate (rs.map Registration.withoutSpans) ↔ Consistent crate rs := by
  constructor
  · intro h
    obtain ⟨hfns, himpls, hentries, hextern, hitem⟩ := h
    simp only [filter_map_fn_without_spans, filter_map_entry_without_spans,
      filter_map_impl_without_spans, List.map_map, List.length_map, List.forall_mem_map] at *
    exact ⟨hfns, himpls, hentries, hextern, hitem⟩
  · intro h
    refine ⟨?_, ?_, ?_, ?_, ?_⟩ <;>
      simp only [filter_map_fn_without_spans, filter_map_entry_without_spans,
        filter_map_impl_without_spans, List.map_map, List.length_map, List.forall_mem_map]
    · exact h.fns
    · exact h.impls
    · exact h.entries
    · exact h.extern_body
    · exact h.entry_item

/-! ## One registration -/

/-- What is found under a key once a new value stands under its own key. -/
theorem ite_eq_some_iff_mem_cons {α κ : Type} [DecidableEq κ] {key : α → κ} {a b : α} {l : List α}
    {k : κ} {found : Option α} (hfound : found = some b ↔ b ∈ l ∧ key b = k)
    (hfresh : key a ∉ l.map key) :
    (if k = key a then some a else found) = some b ↔ b ∈ a :: l ∧ key b = k := by
  rw [List.mem_cons]
  by_cases hk : k = key a
  · rw [if_pos hk, Option.some.injEq]
    constructor
    · rintro rfl
      exact ⟨Or.inl rfl, hk.symm⟩
    · intro h
      obtain ⟨rfl | hmem, hkey⟩ := h
      · rfl
      · exact absurd (List.mem_map.mpr ⟨b, hmem, hkey.trans hk⟩) hfresh
  · rw [if_neg hk, hfound]
    refine and_congr_left fun hkey => (or_iff_right ?_).symm
    rintro rfl
    exact hk hkey.symm

namespace Program

/-- The program in which a function was entered: it is listed if it is an item. -/
def entering (p : Program) (fn : FnDecl) (entry : Bool) : Program :=
  let listed := if p.isItem fn then (p.withFn fn).addItem (fnItem fn) else p.withFn fn
  if entry then { listed with entry := some (fnItem fn) } else listed

/-- When a function can be registered. -/
theorem add_fn_eq_ok {p q : Program} {fn : FnDecl} {entry : Bool} :
    p.addFn fn entry = (.ok (), q) ↔
      p.fnDecl fn.defId = none ∧ (fn.isExtern = true → fn.body = none) ∧
        (entry = true → p.isItem fn = true ∧ p.entry = none) ∧ p.entering fn entry = q := by
  have hnew : p.fnDecl fn.defId = none ↔ ¬ p.fns.contains fn.defId = true := by
    simp [Table.contains, fnDecl]
  have hextern : (fn.isExtern = true → fn.body = none) ↔
      ¬ (fn.isExtern && fn.body.isSome) = true := by simp
  rw [hnew, hextern, addFn]
  by_cases hknown : p.fns.contains fn.defId = true
  · simp [hknown]
  by_cases hforeign : (fn.isExtern && fn.body.isSome) = true
  · rw [if_neg hknown, if_pos hforeign]
    refine iff_of_false (fun h => ?_) fun h => h.2.1 hforeign
    cases h
  rw [if_neg hknown, if_neg hforeign, and_iff_right hknown, and_iff_right hforeign, entering]
  by_cases hitem : p.isItem fn = true
  · cases entry with
    | false => simp [hitem, withFn, addItem]
    | true => cases hentry : p.entry <;> simp [hitem, withFn, addItem]
  · cases entry with
    | false => simp [hitem, withFn]
    | true => simp [hitem]

variable {p q : Program} {fn : FnDecl} {entry : Bool}

/-- Entering a function keeps the name of the crate. -/
theorem crate_name_entering : (p.entering fn entry).crateName? = p.crateName? := by
  unfold entering
  cases entry <;> cases p.isItem fn <;> rfl

/-- A function that was entered is found, and the others as before. -/
theorem fn_decl_entering (id : DefId) :
    (p.entering fn entry).fnDecl id = if id = fn.defId then some fn else p.fnDecl id := by
  have hfns : (p.entering fn entry).fns = p.fns.insert fn.defId fn := by
    unfold entering
    cases entry <;> cases p.isItem fn <;> rfl
  rw [fnDecl, hfns, Table.get?_insert]
  rfl

/-- Entering a function does not change which impl is found. -/
theorem find_impl_entering (traitDef : DefId) (selfTy : Ty) :
    (p.entering fn entry).findImpl traitDef selfTy = p.findImpl traitDef selfTy := by
  unfold entering
  cases entry <;> cases p.isItem fn <;> rfl

/-- Only a function entered as such becomes the entry point. -/
theorem entry_entering :
    (p.entering fn entry).entry = if entry then some (fnItem fn) else p.entry := by
  unfold entering
  cases entry <;> cases p.isItem fn <;> rfl

/-- When an impl can be registered. -/
theorem add_impl_eq_ok {decl : TraitImpl} :
    p.addImpl decl = (.ok (), q) ↔ p.findImpl decl.traitDef decl.selfTy = none ∧
      { p with
        impls := p.impls.insert decl.defId decl
        implIndex := p.implIndex.insert (decl.traitDef, decl.selfTy) decl }.addItem
        { defId := decl.defId, name := decl.defId.symbol, kind := .other, span := decl.span }
          = q := by
  unfold addImpl Table.contains findImpl
  cases p.implIndex.get? (decl.traitDef, decl.selfTy) <;> simp

/-- `p` has the functions, the impls and the entry point of the registrations, and no others. -/
structure Holds (crate : String) (rs : List Registration) (p : Program) : Prop where
  crateName : p.crateName? = some crate
  fnDecl : ∀ id fn, p.fnDecl id = some fn ↔ fn ∈ rs.filterMap Registration.fn? ∧ fn.defId = id
  findImpl : ∀ traitDef selfTy impl, p.findImpl traitDef selfTy = some impl ↔
    impl ∈ rs.filterMap Registration.impl? ∧ impl.key = (traitDef, selfTy)
  entry : ∀ item, p.entry = some item ↔ ∃ fn ∈ rs.filterMap Registration.entry?, fnItem fn = item

/-- A program with declarations of crates alone holds no registration. -/
theorem holds_nothing {crate : String}
    (h : p = { crateName? := some crate, externals := p.externals }) : p.Holds crate [] := by
  rw [h]
  exact ⟨rfl, fun id fn => by simp [Program.fnDecl, Table.get?],
    fun traitDef selfTy impl => by simp [Program.findImpl, Table.get?], fun item => by simp⟩

namespace Holds

variable {crate : String} {rs : List Registration} {r : Registration}

/-- A function is missing exactly if no registration has its identity. -/
theorem fn_decl_eq_none (h : p.Holds crate rs) {id : DefId} :
    p.fnDecl id = none ↔ id ∉ (rs.filterMap Registration.fn?).map FnDecl.defId := by
  rw [Option.eq_none_iff_forall_ne_some, List.mem_map]
  simp only [ne_eq, h.fnDecl, not_exists]

/-- An impl is missing exactly if no registration has its trait and self type. -/
theorem find_impl_eq_none (h : p.Holds crate rs) {traitDef : DefId} {selfTy : Ty} :
    p.findImpl traitDef selfTy = none ↔
      (traitDef, selfTy) ∉ (rs.filterMap Registration.impl?).map TraitImpl.key := by
  rw [Option.eq_none_iff_forall_ne_some, List.mem_map]
  simp only [ne_eq, h.findImpl, not_exists]

/-- There is no entry point exactly if none was registered. -/
theorem entry_eq_none (h : p.Holds crate rs) :
    p.entry = none ↔ rs.filterMap Registration.entry? = [] := by
  rw [Option.eq_none_iff_forall_ne_some, List.eq_nil_iff_forall_not_mem]
  simp only [ne_eq, h.entry, not_exists, not_and]
  exact ⟨fun hnone fn hfn => hnone _ fn hfn rfl, fun hnil _ fn hfn _ => hnil fn hfn⟩

/-- The items among the functions are those of the local crate with a body. -/
theorem is_item_iff (h : p.Holds crate rs) {fn : FnDecl} :
    p.isItem fn = true ↔ fn.defId.crate = crate ∧ fn.body.isSome = true := by
  rw [isItem, h.crateName, Bool.and_eq_true, decide_eq_true_eq, Option.some.injEq, eq_comm]

/-- One more registration is held together with the earlier ones. -/
theorem adds (h : p.Holds crate rs) (hadds : r.Adds p q) : q.Holds crate (r :: rs) := by
  cases r with
  | fn decl entry =>
      obtain ⟨hnew, -, hentry, rfl⟩ := add_fn_eq_ok.mp hadds
      refine ⟨crate_name_entering.trans h.crateName, fun id fn => ?_, fun traitDef selfTy impl => ?_,
        fun item => ?_⟩
      · rw [fn_decl_entering]
        exact ite_eq_some_iff_mem_cons (h.fnDecl id fn) (h.fn_decl_eq_none.mp hnew)
      · rw [find_impl_entering]
        exact h.findImpl _ _ _
      · rw [entry_entering]
        cases entry with
        | false => exact h.entry item
        | true =>
            have hnone := h.entry_eq_none.mp (hentry rfl).2
            simp [Registration.entry?, hnone]
  | struct decl =>
      obtain rfl := hadds
      exact ⟨h.crateName, h.fnDecl, h.findImpl, h.entry⟩
  | trait decl =>
      obtain rfl := hadds
      exact ⟨h.crateName, h.fnDecl, h.findImpl, h.entry⟩
  | impl decl =>
      obtain ⟨hnew, rfl⟩ := add_impl_eq_ok.mp hadds
      refine ⟨h.crateName, h.fnDecl, fun traitDef selfTy impl => ?_, h.entry⟩
      show (p.implIndex.insert decl.key decl).get? (traitDef, selfTy) = some impl ↔ _
      rw [Table.get?_insert]
      exact ite_eq_some_iff_mem_cons (h.findImpl traitDef selfTy impl)
        (h.find_impl_eq_none.mp hnew)

/-- A registration can be added exactly if it does not conflict with those before it. -/
theorem exists_adds_iff (h : p.Holds crate rs) (hrs : Consistent crate rs) :
    (∃ q, r.Adds p q) ↔ Consistent crate (r :: rs) := by
  cases r with
  | fn decl entry =>
      simp only [Registration.Adds, add_fn_eq_ok, exists_and_left, exists_eq', and_true,
        h.fn_decl_eq_none, h.is_item_iff, h.entry_eq_none]
      constructor
      · intro hnew
        obtain ⟨hfresh, hforeign, hentry⟩ := hnew
        have hfns := List.nodup_cons.mpr ⟨hfresh, hrs.fns⟩
        have hbodies := List.forall_mem_cons.mpr ⟨hforeign, hrs.extern_body⟩
        cases entry with
        | false => exact ⟨hfns, hrs.impls, hrs.entries, hbodies, hrs.entry_item⟩
        | true =>
            obtain ⟨hitem, hnone⟩ := hentry rfl
            refine ⟨hfns, hrs.impls, ?_, hbodies, List.forall_mem_cons.mpr ⟨hitem, hrs.entry_item⟩⟩
            show (decl :: rs.filterMap Registration.entry?).length ≤ 1
            rw [hnone]
            exact Nat.le_refl 1
      · intro hall
        refine ⟨(List.nodup_cons.mp hall.fns).1, hall.extern_body decl List.mem_cons_self, ?_⟩
        rintro rfl
        exact ⟨hall.entry_item decl List.mem_cons_self,
          List.length_eq_zero_iff.mp (Nat.le_zero.mp (Nat.le_of_succ_le_succ hall.entries))⟩
  | struct decl | trait decl =>
      exact ⟨fun _ => ⟨hrs.fns, hrs.impls, hrs.entries, hrs.extern_body, hrs.entry_item⟩,
        fun _ => ⟨_, rfl⟩⟩
  | impl decl =>
      simp only [Registration.Adds, add_impl_eq_ok, exists_and_left, exists_eq', and_true,
        h.find_impl_eq_none]
      constructor
      · intro hfresh
        exact ⟨hrs.fns, List.nodup_cons.mpr ⟨hfresh, hrs.impls⟩, hrs.entries, hrs.extern_body,
          hrs.entry_item⟩
      · exact fun hall => (List.nodup_cons.mp hall.impls).1

/-- The order of the registrations that are held does not matter. -/
theorem perm {rs' : List Registration} (h : p.Holds crate rs) (hperm : rs.Perm rs') :
    p.Holds crate rs' where
  crateName := h.crateName
  fnDecl id fn := by rw [h.fnDecl, (hperm.filterMap _).mem_iff]
  findImpl traitDef selfTy impl := by rw [h.findImpl, (hperm.filterMap _).mem_iff]
  entry item := by simp only [h.entry, (hperm.filterMap _).mem_iff]

/-! ### Registrations one after another -/

variable {more : List Registration}

/-- Further registrations are held together with the earlier ones. -/
theorem adds_all (h : p.Holds crate rs) (hadds : AddsAll p q more) : q.Holds crate (more ++ rs) := by
  induction more generalizing p rs with
  | nil =>
      obtain rfl := hadds
      exact h
  | cons r more ih =>
      obtain ⟨middle, hr, hmore⟩ := hadds
      exact (ih (h.adds hr) hmore).perm List.perm_middle

/-- Registrations can be added one after another exactly if all of them together do not conflict. -/
theorem exists_adds_all_iff (h : p.Holds crate rs) (hrs : Consistent crate rs) :
    (∃ q, AddsAll p q more) ↔ Consistent crate (more ++ rs) := by
  induction more generalizing p rs with
  | nil => exact ⟨fun _ => hrs, fun _ => ⟨p, rfl⟩⟩
  | cons r more ih =>
      constructor
      · intro hall
        obtain ⟨q, middle, hr, hmore⟩ := hall
        have hfirst := (h.exists_adds_iff hrs).mp ⟨middle, hr⟩
        exact ((ih (h.adds hr) hfirst).mp ⟨q, hmore⟩).perm List.perm_middle
      · intro hall
        have hmiddle := hall.perm List.perm_middle.symm
        have hfirst := hmiddle.of_sublist (List.sublist_append_right more (r :: rs))
        obtain ⟨middle, hr⟩ := (h.exists_adds_iff hrs).mpr hfirst
        obtain ⟨q, hmore⟩ := (ih (h.adds hr) hfirst).mpr hmiddle
        exact ⟨q, middle, hr, hmore⟩

/-! ### What is found, without spans -/

/-- A function is found up to its span as the registrations say. -/
theorem map_fn_decl_eq_some (h : p.Holds crate rs) {id : DefId} {fn : FnDecl} :
    (p.fnDecl id).map FnDecl.withoutSpan = some fn ↔
      fn ∈ (rs.map Registration.withoutSpans).filterMap Registration.fn? ∧ fn.defId = id := by
  rw [filter_map_fn_without_spans, Option.map_eq_some_iff, List.mem_map]
  simp only [h.fnDecl]
  constructor
  · intro hfound
    obtain ⟨found, ⟨hmem, rfl⟩, rfl⟩ := hfound
    exact ⟨⟨found, hmem, rfl⟩, rfl⟩
  · intro hfound
    obtain ⟨⟨found, hmem, rfl⟩, rfl⟩ := hfound
    exact ⟨found, ⟨hmem, rfl⟩, rfl⟩

/-- An impl is found up to its spans as the registrations say. -/
theorem map_find_impl_eq_some (h : p.Holds crate rs) {traitDef : DefId} {selfTy : Ty}
    {impl : TraitImpl} :
    (p.findImpl traitDef selfTy).map TraitImpl.unspanned = some impl ↔
      impl ∈ (rs.map Registration.withoutSpans).filterMap Registration.impl? ∧
        impl.key = (traitDef, selfTy) := by
  rw [filter_map_impl_without_spans, Option.map_eq_some_iff, List.mem_map]
  simp only [h.findImpl]
  constructor
  · intro hfound
    obtain ⟨found, ⟨hmem, hkey⟩, rfl⟩ := hfound
    exact ⟨⟨found, hmem, rfl⟩, hkey⟩
  · intro hfound
    obtain ⟨⟨found, hmem, rfl⟩, hkey⟩ := hfound
    exact ⟨found, ⟨hmem, hkey⟩, rfl⟩

/-- The entry point is the registered one. -/
theorem map_entry_eq_some (h : p.Holds crate rs) {id : DefId} :
    p.entry.map Item.defId = some id ↔
      ∃ fn ∈ (rs.map Registration.withoutSpans).filterMap Registration.entry?, fn.defId = id := by
  rw [filter_map_entry_without_spans, Option.map_eq_some_iff]
  simp only [h.entry, List.mem_map]
  constructor
  · intro hfound
    obtain ⟨_, ⟨fn, hmem, rfl⟩, rfl⟩ := hfound
    exact ⟨_, ⟨fn, hmem, rfl⟩, rfl⟩
  · intro hfound
    obtain ⟨_, ⟨fn, hmem, rfl⟩, rfl⟩ := hfound
    exact ⟨_, ⟨fn, hmem, rfl⟩, rfl⟩

end Holds

end Program

end MirAudit
