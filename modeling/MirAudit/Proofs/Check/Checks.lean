import MirAudit.Proofs.Check.Reached
import MirAudit.Proofs.Check.Snapshot

/-!
# What the checks of an audit answer

On a loaded program every check succeeds, whatever was interned before, except the one of the
traits. That one fails exactly if an impl is of a trait that is not declared: `check_traits_answer`.
-/

namespace MirAudit

/-! ## Comparing declarations -/

theorem Comparable.same_some {α : Type} [Comparable α] {a : α} (h : Comparable.same a a = true) :
    Comparable.same (some a) (some a) = true :=
  h

theorem Comparable.same_crate (crate : Crate) : Comparable.same crate crate = true :=
  decide_eq_true rfl

theorem Comparable.same_item (item : Item) : Comparable.same item item = true :=
  decide_eq_true rfl

theorem Comparable.same_trait_decl (decl : TraitDecl) : Comparable.same decl decl = true :=
  decide_eq_true rfl

theorem Comparable.same_trait_impl (impl : TraitImpl) : Comparable.same impl impl = true :=
  decide_eq_true rfl

namespace Query.Answers

variable {σ : Type} {inv : σ → Prop}

/-- A check that passes is answered. -/
theorem of_check {α : Type} {result : Except CheckFault α} {a : α} (h : result = .ok a) :
    (Query.ofCheck result : Query σ α).Answers inv (.ok a) := by
  rw [h]
  exact .of_except _

/-- The walk of a body that is not stuck passes. -/
theorem walk_body {body : Body} (h : body.walk.stuck = none) :
    (Query.walkBody body : Query σ Unit).Answers inv (.ok ()) := by
  rw [Query.walkBody, Trace.complete, h]
  exact .pure ()

end Query.Answers

namespace Program

variable {p : Program}

/-- What does not depend on the intern table is answered as before. -/
theorem reads_answer {α : Type} {f : Program → Except Fault α} {r : Except Fault α}
    (h : ∀ table, f { p with interned := table } = r) :
    (Query.reads f).Answers p.InternedFrom r := by
  refine .reads fun q hq => ?_
  rw [hq.same]
  exact h _

/-- An impl is of a trait that is not declared. -/
def HasUndeclaredTrait (p : Program) : Prop :=
  ∃ impl ∈ p.impls.values, ∀ decl ∈ p.traits.values, decl.defId ≠ impl.traitDef

/-- The finding says of an impl that its trait is not declared. -/
def ReportsUndeclared (p : Program) (finding : CheckFault) : Prop :=
  ∃ impl ∈ p.impls.values, finding =
    { kind := .plain
      message := "Failed to find trait definition " ++ impl.traitDef.symbol ++ " of `"
        ++ impl.defId.symbol ++ "`" }

end Program

namespace Source.Loaded

variable {l : Loader} {items : List (Spanned ItemTree)} {p : Program}

/-! ## Bodies -/

/-- The bodies of items can be walked. -/
theorem walk_item (hp : Loaded l items p) {item : Item} {body : Body}
    (h : p.bodyOfItem item = some body) : body.walk.stuck = none := by
  unfold Program.bodyOfItem at h
  split at h
  next =>
    obtain ⟨fn, hfn, hbody⟩ := Option.bind_eq_some_iff.mp h
    exact (hp.fits hfn hbody).walk
  next => cases h

/-- The body of an item is looked up, whatever was interned. -/
theorem body_of_item_answer (p : Program) (item : Item) :
    (Program.model.bodyOfItem item).Answers p.InternedFrom (.ok (p.bodyOfItem item)) :=
  Program.reads_answer fun _ => rfl

/-- The check of the entry point passes for a loaded program. -/
theorem check_entry_answer (hp : Loaded l items p) :
    Program.model.checkEntry.Answers p.InternedFrom (.ok ()) := by
  unfold Model.checkEntry
  refine .bind (entry_answer p) ?_
  cases hentry : p.entry with
  | none => exact .pure ()
  | some entry =>
      have hlisted : p.items.any (fun item => Comparable.same item entry) = true :=
        List.any_eq_true.mpr
          ⟨entry, (hp.registered.entry_item entry hentry).1, Comparable.same_item entry⟩
      refine .bind (body_of_item_answer p entry) ?_
      cases hbody : p.bodyOfItem entry with
      | none =>
          exact .bind hp.local_items_answer (.of_check (expect_of_true hlisted _ _))
      | some body =>
          refine .bind (.walk_body (hp.walk_item hbody)) ?_
          exact .bind hp.local_items_answer (.of_check (expect_of_true hlisted _ _))

/-- The check of the bodies passes for a loaded program. -/
theorem check_bodies_answer (hp : Loaded l items p) :
    Program.model.checkBodies.Answers p.InternedFrom (.ok ()) := by
  unfold Model.checkBodies
  refine .bind hp.local_items_answer (.for_m fun item _ => ?_)
  refine .bind (body_of_item_answer p item) ?_
  cases hbody : p.bodyOfItem item with
  | none => exact .pure ()
  | some body => exact .walk_body (hp.walk_item hbody)

/-- A walk of the body of an instance that is reached reproduces it. -/
theorem check_instance_answer (hp : Loaded l items p) {i : Instance}
    (h : p.oracle.Reaches p.auditRoots i) :
    (Program.model.checkInstance i).Answers p.InternedFrom (.ok ()) := by
  have hbodyOf : (Program.model.bodyOf i).Answers p.InternedFrom (p.bodyOf i) :=
    (Program.answers_from_oracle hp.coherent).bodyOf i
  unfold Model.checkInstance
  rcases hp.body_of_reaches h with hbody | ⟨body, hbody, hfits⟩
  · rw [hbody] at hbodyOf
    exact .bind hbodyOf (.pure ())
  · rw [hbody] at hbodyOf
    refine .bind hbodyOf ?_
    dsimp only
    rw [Body.check_of_walk hfits.walk]
    exact .bind (.of_except _) (.pure ())

/-! ## Crates -/

/-- The crates of a program with their local one first. -/
theorem find_crate (hp : Loaded l items p) {crate : Crate}
    (h : crate ∈ p.localCrate?.toList ++ p.externals) : p.findCrate crate.name = some crate := by
  have hnames : (p.localCrate?.toList ++ p.externals).map Crate.name = l.scope.crates := by
    rw [hp.crates, Program.localCrate?, hp.crateName]
    rfl
  exact Program.find_crate_of_names (hnames ▸ hp.distinct) h

/-- The check of a crate passes if the crate belongs to the program. -/
theorem check_crate_answer (hp : Loaded l items p) (what : String) {crate : Crate}
    (h : crate ∈ p.localCrate?.toList ++ p.externals) :
    (Program.model.checkCrate what crate).Answers p.InternedFrom (.ok ()) := by
  have hfind : (Program.model.findCrate crate.name).Answers p.InternedFrom
      (.ok (p.findCrate crate.name)) := Program.reads_answer fun _ => rfl
  unfold Model.checkCrate
  rw [hp.find_crate h] at hfind
  refine .bind hfind (.of_check (expect_same_of_same ?_ _ _))
  exact Comparable.same_some (Comparable.same_crate crate)

/-- The check of the crates passes for a loaded program. -/
theorem check_crates_answer (hp : Loaded l items p) :
    Program.model.checkCrates.Answers p.InternedFrom (.ok ()) := by
  have hexternals : Program.model.externalCrates.Answers p.InternedFrom (.ok p.externals) :=
    Program.reads_answer fun _ => rfl
  obtain ⟨crate, hcrate⟩ : ∃ crate, p.localCrate? = some crate := by
    rw [Program.localCrate?, hp.crateName]
    exact ⟨_, rfl⟩
  have hlocal : Program.model.localCrate.Answers p.InternedFrom (.ok crate) := by
    refine Program.reads_answer fun _ => ?_
    show p.localCrate = _
    rw [Program.localCrate, hcrate]
  unfold Model.checkCrates
  refine .bind hexternals (.bind (.for_m fun other hother => ?_) (.bind hlocal ?_))
  · exact hp.check_crate_answer _ (List.mem_append_right _ hother)
  · exact hp.check_crate_answer _ (by simp [hcrate])

/-! ## Traits -/

/-- What is stored under the key of a listed value is that value. -/
theorem require_answer {ν : Type} {table : Table DefId ν} {key : ν → DefId} {value : ν}
    (hkeyed : table.KeyedBy key) (hvalue : value ∈ table.values) :
    Program.require table (key value) = .ok value := by
  rw [Program.require, hkeyed.mem_values.mp hvalue]

/-- The check of a trait passes if it is declared. -/
theorem check_trait_answer (hp : Loaded l items p) {decl : TraitDecl}
    (h : decl ∈ p.traits.values) :
    (Program.model.checkTrait decl).Answers p.InternedFrom (.ok ()) := by
  have hfound : (Program.model.traitDecl decl.defId).Answers p.InternedFrom (.ok decl) :=
    Program.reads_answer fun _ => require_answer hp.registered.traits h
  exact .bind hfound (.of_check (expect_same_of_same (Comparable.same_trait_decl decl) _ _))

/-- An impl of a declared trait passes, and any other is a finding. -/
theorem check_impl_answer (hp : Loaded l items p) {impl : TraitImpl} (h : impl ∈ p.impls.values) :
    (Program.model.checkImpl p.traits.values impl).Answers p.InternedFrom (.ok ()) ∧
        (∃ decl ∈ p.traits.values, decl.defId = impl.traitDef) ∨
      (∃ finding, p.ReportsUndeclared finding ∧
        (Program.model.checkImpl p.traits.values impl).Answers p.InternedFrom
          (.error (.check finding))) ∧
        ∀ decl ∈ p.traits.values, decl.defId ≠ impl.traitDef := by
  have hfound : (Program.model.traitImpl impl.defId).Answers p.InternedFrom (.ok impl) :=
    Program.reads_answer fun _ => require_answer hp.registered.impls h
  have hsame := expect_same_of_same (Comparable.same_trait_impl impl) "trait impl mismatch" {}
  unfold Model.checkImpl
  by_cases hdeclared : ∃ decl ∈ p.traits.values, decl.defId = impl.traitDef
  · refine Or.inl ⟨.bind hfound (.bind (.of_check hsame) (.of_check ?_)), hdeclared⟩
    exact expect_of_true (by simpa using hdeclared) _ _
  · refine Or.inr ⟨?_, by simpa using hdeclared⟩
    rw [expect, if_neg (by simpa using hdeclared)]
    exact ⟨_, ⟨impl, h, rfl⟩, .bind hfound (.bind (.of_check hsame) (.of_except _))⟩

/-- Impls are checked in order, up to the first of a trait that is not declared. -/
theorem check_impls_answer (hp : Loaded l items p) {impls : List TraitImpl}
    (h : ∀ impl ∈ impls, impl ∈ p.impls.values) :
    (impls.forM (Program.model.checkImpl p.traits.values)).Answers p.InternedFrom (.ok ⟨⟩) ∧
        (∀ impl ∈ impls, ∃ decl ∈ p.traits.values, decl.defId = impl.traitDef) ∨
      (∃ finding, p.ReportsUndeclared finding ∧
        (impls.forM (Program.model.checkImpl p.traits.values)).Answers p.InternedFrom
          (.error (.check finding))) ∧
        ∃ impl ∈ impls, ∀ decl ∈ p.traits.values, decl.defId ≠ impl.traitDef := by
  induction impls with
  | nil => exact Or.inl ⟨.pure PUnit.unit, fun _ himpl => absurd himpl List.not_mem_nil⟩
  | cons impl impls ih =>
      have hcons : (impl :: impls).forM (Program.model.checkImpl p.traits.values) =
          (Program.model.checkImpl p.traits.values impl >>= fun _ =>
            impls.forM (Program.model.checkImpl p.traits.values)) := rfl
      rw [hcons]
      rcases hp.check_impl_answer (h impl List.mem_cons_self) with
        ⟨hpasses, hdeclared⟩ | ⟨⟨finding, hreports, hfails⟩, hundeclared⟩
      · rcases ih fun other hother => h other (List.mem_cons_of_mem impl hother) with
          ⟨hrest, hall⟩ | ⟨⟨finding, hreports, hrest⟩, other, hother, hundeclared⟩
        · exact Or.inl ⟨.bind hpasses hrest, List.forall_mem_cons.mpr ⟨hdeclared, hall⟩⟩
        · exact Or.inr ⟨⟨finding, hreports, .bind hpasses hrest⟩, other,
            List.mem_cons_of_mem impl hother, hundeclared⟩
      · exact Or.inr ⟨⟨finding, hreports, .bind_error hfails⟩, impl, List.mem_cons_self,
          hundeclared⟩

/-- The check of the traits fails exactly if an impl is of a trait that is not declared. -/
theorem check_traits_answer (hp : Loaded l items p) :
    Program.model.checkTraits.Answers p.InternedFrom (.ok ()) ∧ ¬ p.HasUndeclaredTrait ∨
      (∃ finding, p.ReportsUndeclared finding ∧
        Program.model.checkTraits.Answers p.InternedFrom (.error (.check finding))) ∧
        p.HasUndeclaredTrait := by
  have htraits : Program.model.traitDecls.Answers p.InternedFrom (.ok p.traits.values) :=
    Program.reads_answer fun _ => rfl
  have himpls : Program.model.traitImpls.Answers p.InternedFrom (.ok p.impls.values) :=
    Program.reads_answer fun _ => rfl
  have hdecls : (p.traits.values.forM Program.model.checkTrait).Answers p.InternedFrom (.ok ⟨⟩) :=
    .for_m fun decl hdecl => hp.check_trait_answer hdecl
  unfold Model.checkTraits
  rcases hp.check_impls_answer fun _ himpl => himpl with
    ⟨hpasses, hall⟩ | ⟨⟨finding, hreports, hfails⟩, hundeclared⟩
  · refine Or.inl ⟨.bind htraits (.bind hdecls (.bind himpls hpasses)), ?_⟩
    intro h
    obtain ⟨impl, himpl, hne⟩ := h
    obtain ⟨decl, hdecl, heq⟩ := hall impl himpl
    exact hne decl hdecl heq
  · exact Or.inr
      ⟨⟨finding, hreports, .bind htraits (.bind hdecls (.bind himpls hfails))⟩, hundeclared⟩

end Source.Loaded

end MirAudit
