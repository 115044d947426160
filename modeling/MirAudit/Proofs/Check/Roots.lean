import MirAudit.Check.Suite
import MirAudit.Proofs.Program.Interning
import MirAudit.Proofs.Source.Load

/-!
# The roots of an audit

A loaded program has the roots `Program.auditRoots`: the entry point and the local functions without
type parameters. Its roots cannot be found exactly if the entry point has type parameters. Read
`roots_answer` and `roots_answer_generic` first.
-/

namespace MirAudit

namespace Program

/-- The instance of an item that is a function without type parameters. -/
def itemRoot? (p : Program) (item : Item) : Option Instance :=
  if item.kind = .fn ∧ (p.fnDecl item.defId).any (fun fn => !fn.isGeneric) then
    some ⟨item.defId, []⟩
  else none

/-- Adds an instance to some roots, unless it is one of them. -/
def addRoot (roots : List Instance) (i : Instance) : List Instance :=
  if i ∈ roots then roots else roots ++ [i]

/-- The entry point, and every local function without type parameters. -/
def auditRoots (p : Program) : List Instance :=
  (p.items.filterMap p.itemRoot?).foldl addRoot (p.entry.bind p.itemRoot?).toList

/-- The entry point has type parameters. -/
def GenericEntry (p : Program) : Prop :=
  ∃ entry fn, p.entry = some entry ∧ p.fnDecl entry.defId = some fn ∧ fn.isGeneric = true

theorem mem_foldl_add_root {is roots : List Instance} {i : Instance} :
    i ∈ is.foldl addRoot roots ↔ i ∈ roots ∨ i ∈ is := by
  induction is generalizing roots with
  | nil => simp
  | cons j is ih =>
      rw [List.foldl_cons, ih, addRoot]
      by_cases hj : j ∈ roots
      · rw [if_pos hj, List.mem_cons]
        constructor
        · intro h
          obtain h | h := h
          · exact Or.inl h
          · exact Or.inr (Or.inr h)
        · intro h
          obtain h | rfl | h := h
          · exact Or.inl h
          · exact Or.inl hj
          · exact Or.inr h
      · rw [if_neg hj, List.mem_append, List.mem_singleton, List.mem_cons, or_assoc]

/-- The roots are the instances of the local functions without type parameters. -/
theorem mem_audit_roots {p : Program} (hp : p.Registered) {i : Instance} :
    i ∈ p.auditRoots ↔ ∃ item ∈ p.items, item.kind = .fn ∧
      (∃ fn, p.fnDecl item.defId = some fn ∧ fn.isGeneric = false) ∧ i = ⟨item.defId, []⟩ := by
  have hroot : ∀ item, p.itemRoot? item = some i ↔ item.kind = .fn ∧
      (∃ fn, p.fnDecl item.defId = some fn ∧ fn.isGeneric = false) ∧ i = ⟨item.defId, []⟩ := by
    intro item
    unfold itemRoot?
    cases p.fnDecl item.defId with
    | none => simp
    | some fn =>
        constructor
        · intro h
          split at h
          next hplain =>
            cases h
            exact ⟨hplain.1, ⟨fn, rfl, by simpa using hplain.2⟩, rfl⟩
          next => cases h
        · intro h
          obtain ⟨hkind, ⟨_, ⟨⟩, hplain⟩, rfl⟩ := h
          rw [if_pos ⟨hkind, by simpa using hplain⟩]
  -- the entry point is one of the items, so it adds no root of its own
  unfold auditRoots
  rw [mem_foldl_add_root, Option.mem_toList, Option.bind_eq_some_iff, List.mem_filterMap]
  simp only [hroot]
  constructor
  · intro h
    obtain ⟨entry, hentry, h⟩ | h := h
    · exact ⟨entry, (hp.entry_item entry hentry).1, h⟩
    · exact h
  · exact Or.inr

end Program

namespace Source.Loaded

variable {l : Loader} {items : List (Spanned ItemTree)} {p : Program}

/-- A function without type parameters is resolved to its only instance: there are no bounds to
check, and it belongs to no trait. -/
theorem resolve_plain (hp : Loaded l items p) {id : DefId} {fn : FnDecl}
    (hfn : p.fnDecl id = some fn) (hplain : fn.isGeneric = false) :
    p.environment.resolve id [] = .ok ⟨id, []⟩ := by
  have hnil : fn.generics = [] := by
    simpa [FnDecl.isGeneric] using hplain
  have htrait : fn.traitDef = none := by
    rw [← Option.not_isSome_iff_eq_none]
    exact fun hsome => hp.generics_of_trait hfn hsome hnil
  refine Environment.resolve_eq_ok.mpr ⟨fn, hfn, ?_, by simp, ?_, Or.inl ⟨htrait, rfl⟩⟩
  · rw [hnil]
    rfl
  · rw [Environment.checkBounds, hnil]
    rfl

/-- The instance of an item of a loaded program is always found. -/
theorem item_instance (hp : Loaded l items p) (item : Item) :
    p.itemInstance item = .ok (p.itemRoot? item) := by
  unfold Program.itemInstance Program.itemRoot?
  by_cases hkind : item.kind = .fn
  · rw [if_neg (not_not.mpr hkind)]
    cases hfn : p.fnDecl item.defId with
    | none => simp
    | some fn =>
        dsimp only
        by_cases hgeneric : fn.isGeneric = true
        · rw [if_pos hgeneric, if_neg]
          simp [hgeneric]
        · rw [if_neg hgeneric, if_pos (by simp [hkind, hgeneric])]
          have hplain : fn.isGeneric = false := by simpa using hgeneric
          rw [Program.oracle_resolve_eq_ok.mpr (hp.resolve_plain hfn hplain)]
          rfl
  · rw [if_pos hkind, if_neg fun h => hkind h.1]

theorem item_roots_answer (hp : Loaded l items p) (listed : List Item) (roots : List Instance) :
    (Program.model.itemRoots listed roots).Answers p.InternedFrom
      (.ok ((listed.filterMap p.itemRoot?).foldl Program.addRoot roots)) := by
  induction listed generalizing roots with
  | nil => exact .pure roots
  | cons item listed ih =>
      unfold Model.itemRoots
      by_cases hkind : item.kind ≠ .fn
      · rw [if_pos hkind, List.filterMap_cons, Program.itemRoot?, if_neg fun h => hkind h.1]
        exact ih roots
      · rw [if_neg hkind]
        have hinstance := Program.instance_of_answers hp.coherent item
        rw [hp.item_instance item] at hinstance
        refine .bind hinstance ?_
        rw [List.filterMap_cons]
        cases p.itemRoot? item with
        | none => exact ih roots
        | some i => exact ih (Program.addRoot roots i)

theorem local_items_answer (hp : Loaded l items p) :
    Program.model.localItems.Answers p.InternedFrom (.ok p.items) := by
  refine .reads fun q hq => ?_
  rw [hq.same]
  show p.localCrate.map (fun _ => p.items) = _
  rw [Program.localCrate, Program.localCrate?, hp.crateName]
  rfl

theorem entry_answer (p : Program) :
    Program.model.entryFn.Answers p.InternedFrom (.ok p.entry) := by
  refine .reads fun q hq => ?_
  rw [hq.same]

/-- The entry point has an instance, unless it has type parameters. -/
theorem item_root_of_entry (hp : Loaded l items p) {entry : Item} (hfound : p.entry = some entry)
    (hentry : ¬ p.GenericEntry) : p.itemRoot? entry = some ⟨entry.defId, []⟩ := by
  obtain ⟨hmem, hkind⟩ := hp.registered.entry_item entry hfound
  obtain ⟨fn, hfn, -⟩ := hp.registered.fn_item entry hmem hkind
  have hplain : fn.isGeneric = false := by
    rw [← Bool.not_eq_true]
    exact fun hgeneric => hentry ⟨entry, fn, hfound, hfn, hgeneric⟩
  rw [Program.itemRoot?, if_pos ⟨hkind, by simp [hfn, hplain]⟩]

/-- The entry point is a root, unless it has type parameters. -/
theorem entry_root_answer (hp : Loaded l items p) (hentry : ¬ p.GenericEntry) :
    Program.model.entryRoot.Answers p.InternedFrom (.ok (p.entry.bind p.itemRoot?).toList) := by
  unfold Model.entryRoot
  refine .bind (entry_answer p) ?_
  cases hfound : p.entry with
  | none => exact .pure []
  | some entry =>
      have hroot := hp.item_root_of_entry hfound hentry
      have hinstance := Program.instance_of_answers hp.coherent entry
      rw [hp.item_instance entry, hroot] at hinstance
      dsimp only
      rw [if_neg (not_not.mpr (hp.registered.entry_item entry hfound).2)]
      refine .bind hinstance ?_
      rw [Option.bind_some, hroot]
      exact .pure _

/-- The roots of a loaded program, when the entry point has no type parameters. -/
theorem roots_answer (hp : Loaded l items p) (hentry : ¬ p.GenericEntry) :
    Program.model.roots.Answers p.InternedFrom (.ok p.auditRoots) := by
  unfold Model.roots
  refine .bind (hp.entry_root_answer hentry) (.bind hp.local_items_answer ?_)
  exact hp.item_roots_answer p.items _

/-- An entry point with type parameters is a setup fault. -/
theorem roots_answer_generic (hp : Loaded l items p) (hentry : p.GenericEntry) :
    ∃ message, Program.model.roots.Answers p.InternedFrom (.error (.setup message)) := by
  obtain ⟨entry, fn, hp_entry, hfn, hgeneric⟩ := hentry
  obtain ⟨-, hkind⟩ := hp.registered.entry_item entry hp_entry
  have hroot : p.itemRoot? entry = none := by
    rw [Program.itemRoot?, if_neg]
    simp [hfn, hgeneric]
  have hinstance := Program.instance_of_answers hp.coherent entry
  rw [hp.item_instance entry, hroot] at hinstance
  refine ⟨"entry point `" ++ entry.name ++ "` cannot be instantiated", .bind_error ?_⟩
  unfold Model.entryRoot
  refine .bind (entry_answer p) ?_
  rw [hp_entry]
  dsimp only
  rw [if_neg (not_not.mpr hkind)]
  exact .bind hinstance (.throw _)

/-- Roots that were found are those of the program, whatever was interned before. -/
theorem roots_eq (hp : Loaded l items p) {roots : List Instance} {q r : Program}
    (hq : p.InternedFrom q) (hroots : Program.model.roots.ask q = (.ok roots, r)) :
    roots = p.auditRoots ∧ p.InternedFrom r := by
  have hentry : ¬ p.GenericEntry := by
    intro hgeneric
    obtain ⟨message, hanswers⟩ := hp.roots_answer_generic hgeneric
    have herror := (hanswers q hq).1
    rw [hroots] at herror
    cases herror
  obtain ⟨hanswer, hnext⟩ := hp.roots_answer hentry q hq
  rw [hroots] at hanswer hnext
  exact ⟨Except.ok.inj hanswer, hnext⟩

end Source.Loaded

end MirAudit
