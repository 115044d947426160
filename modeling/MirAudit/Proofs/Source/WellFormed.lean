import MirAudit.Proofs.Program.Interning
import MirAudit.Proofs.Source.Load
import MirAudit.Proofs.Source.Rebuild

/-!
# Bodies of accepted texts

Every body that was built for a signature is well formed for it: `BodyTree.lower_well_formed`. So
the generic bodies of an accepted text are well formed for the signatures of their functions, and
those of the instances for the signatures with the arguments put in: `bodies_well_formed`.
-/

namespace MirAudit.Source

/-! ## Jumps -/

variable {s : BodyScope}

/-- No jump that is written leads to a negative block number. -/
theorem TerminatorTree.successors_nonneg {tree : TerminatorTree} {terminator : Terminator}
    (h : tree.lower s = .ok terminator) : ∀ target ∈ terminator.successors, 0 ≤ target := by
  have hone (n : Nat) : ∀ target ∈ [(n : BlockNumber)], 0 ≤ target :=
    List.forall_mem_singleton.mpr (Int.natCast_nonneg n)
  cases tree with
  | goto target =>
      simp only [TerminatorTree.lower, Outcome.bind_eq_ok, Outcome.pure_eq_ok] at h
      obtain ⟨n, -, rfl⟩ := h
      exact hone n
  | «return» | unreachable =>
      obtain rfl := Outcome.pure_eq_ok.mp h
      exact fun target htarget => absurd htarget List.not_mem_nil
  | switch discr arms otherwise =>
      simp only [TerminatorTree.lower, Outcome.bind_eq_ok, Outcome.pure_eq_ok] at h
      obtain ⟨targets, htargets, _, -, n, -, rfl⟩ := h
      intro target htarget
      rcases List.mem_append.mp htarget with htarget | htarget
      · obtain ⟨lowered, hmem, rfl⟩ := List.mem_map.mp htarget
        obtain ⟨arm, -, harm⟩ := Outcome.of_mem_map_m htargets hmem
        simp only [lowerArm, Outcome.bind_eq_ok, Outcome.pure_eq_ok] at harm
        obtain ⟨_, -, block, -, rfl⟩ := harm
        exact Int.natCast_nonneg _
      · exact hone n target htarget
  | call dest func args target =>
      simp only [TerminatorTree.lower, Outcome.bind_eq_ok, Outcome.pure_eq_ok] at h
      obtain ⟨_, -, _, -, _, -, block, hblock, rfl⟩ := h
      cases target with
      | none =>
          obtain rfl := Outcome.pure_eq_ok.mp hblock
          exact fun target htarget => absurd htarget List.not_mem_nil
      | some tok =>
          simp only [lowerCallTarget, Outcome.bind_eq_ok, Outcome.pure_eq_ok] at hblock
          obtain ⟨n, -, rfl⟩ := hblock
          exact hone n
  | drop slot target | assert cond expected target =>
      simp only [TerminatorTree.lower, Outcome.bind_eq_ok, Outcome.pure_eq_ok] at h
      obtain ⟨_, -, n, -, rfl⟩ := h
      exact hone n

/-- No jump of blocks that are written leads to a negative block number. -/
theorem lower_blocks_nonneg {next : Nat} {trees : List BlockTree} {blocks : List Block}
    (h : lowerBlocks s next trees = .ok blocks) :
    ∀ block ∈ blocks, ∀ target ∈ block.terminator.successors, 0 ≤ target := by
  induction trees generalizing next blocks with
  | nil =>
      obtain rfl := Outcome.pure_eq_ok.mp h
      exact fun block hblock => absurd hblock List.not_mem_nil
  | cons tree trees ih =>
      obtain ⟨-, statements, -, terminator, hterminator, rest, hrest, rfl⟩ :=
        lower_blocks_cons_eq_ok.mp h
      exact List.forall_mem_cons.mpr
        ⟨TerminatorTree.successors_nonneg hterminator, ih hrest⟩

/-! ## Bodies -/

/-- A body that was built for a signature is well formed for it. -/
theorem BodyTree.lower_well_formed {scope : Scope} {sig : Signature} {tree : Spanned BodyTree}
    {body : Body} (h : BodyTree.lower scope sig tree = .ok body) :
    body.WellFormed sig.inputs sig.output := by
  have hfits := BodyTree.lower_fits h
  obtain ⟨locals, blocks, -, hblocks, hfault, rfl⟩ := BodyTree.lower_eq_ok.mp h
  obtain ⟨hfront, hnonempty, hjumps⟩ := body_fault_eq_none.mp hfault
  obtain ⟨henough, hreturn, hargs⟩ :=
    Body.WellFormed.signature_slots
      (b := { blocks, locals, argCount := sig.inputs.length }) rfl hfront
  refine ⟨List.length_pos_iff.mpr hnonempty, ?_, hfits, rfl, henough, hreturn, hargs⟩
  intro block hblock target htarget
  exact ⟨lower_blocks_nonneg hblocks block hblock target htarget,
    hjumps block hblock target htarget⟩

/-- The body of a function that was built is well formed for the function. -/
theorem FnSource.lower_well_formed {src : FnSource} {fn : FnDecl} (h : src.lower = .ok fn)
    {body : Body} (hbody : fn.body = some body) : body.WellFormed fn.inputs fn.output := by
  obtain ⟨sig, scope, lowered, -, hlowered, rfl⟩ := FnSource.lower_eq_ok.mp h
  obtain rfl : lowered = some body := hbody
  cases htree : src.body with
  | none =>
      rw [htree] at hlowered
      cases hlowered
  | some tree =>
      rw [htree] at hlowered
      obtain ⟨_, hlower, ⟨⟩⟩ := Outcome.map_eq_ok.mp hlowered
      exact BodyTree.lower_well_formed hlower

/-- In an accepted text, the body of every function is well formed for the signature of the
function. Whatever was resolved before, an instance of the function that resolution gives has a body
too, and that body is well formed for the signature with the arguments put in. Every operand of
either body has a type. -/
theorem bodies_well_formed {file : Option String} {text : List Char} {p : Program}
    (h : loadText file text = .ok p) {id : DefId} {fn : FnDecl} {body : Body}
    (hfn : p.fnDecl id = some fn) (hbody : fn.body = some body) :
    (body.WellFormed fn.inputs fn.output ∧
      ∀ operand ∈ body.operands, ∃ ty, operand.ty body.locals = .ok ty) ∧
    ∀ q, p.Resolving q → ∀ asked args i r, q.resolve asked args = (.ok i, r) → i.defId = id →
      ∃ inst, r.bodyOf i = .ok (some inst) ∧
        inst.WellFormed (fn.inputs.map (Ty.subst ⟨fn.paramNames.zip i.args⟩))
          (fn.output.subst ⟨fn.paramNames.zip i.args⟩) ∧
        ∀ operand ∈ inst.operands, ∃ ty, operand.ty inst.locals = .ok ty := by
  obtain ⟨items, l, -, -, hp⟩ := loaded_of_text h
  obtain ⟨_, _, src, _, hlower⟩ := hp.found hfn
  have hgeneric := FnSource.lower_well_formed hlower hbody
  refine ⟨⟨hgeneric, fun operand hoperand => hgeneric.operand_ty hoperand⟩, ?_⟩
  intro q hq asked args i r hresolve hid
  -- what was interned before does not show
  have hinterned := Program.InternedFrom.of_resolving hq hp.interned hp.coherent
  obtain ⟨horacle, hafter⟩ := hinterned.resolve hp.coherent.idempotent asked args
  rw [hresolve] at horacle hafter
  replace hafter : p.InternedFrom r := hafter
  have hresolved := Program.oracle_resolve_eq_ok.mp horacle.symm
  obtain ⟨known, hknown, harity⟩ := Environment.resolve_arity hp.coherent hresolved
  rw [hid] at hknown
  obtain rfl := Option.some.inj (hfn.symm.trans hknown)
  have hextern : fn.isExtern = false := by
    cases hextern : fn.isExtern with
    | false => rfl
    | true =>
        have hnone := hp.registered.extern_body hfn hextern
        rw [hbody] at hnone
        cases hnone
  have hinst : r.bodyOf i = .ok (some (body.subst ⟨fn.paramNames.zip i.args⟩)) := by
    rw [hafter.same]
    refine Program.body_of_eq_some.mpr ⟨fn, body, ?_, hextern, hbody, ?_, rfl⟩
    · rw [hid]
      exact hfn
    · rw [FnDecl.paramNames, List.length_map, harity]
  have hsound := hgeneric.subst ⟨fn.paramNames.zip i.args⟩
  exact ⟨_, hinst, hsound, fun operand hoperand => hsound.operand_ty hoperand⟩

/-- A function that pairs its argument with itself, over a loop. -/
def twinText : String :=
  "fn twin<T>(T) -> (T, T) \x7b
    let _0: (T, T);
    let _1: T;
    bb0: \x7b _0 = aggregate (T, T)(copy _1, move _1); goto -> bb1; \x7d
    bb1: \x7b switchInt(const 1: i32) -> [1: bb0, otherwise: bb2]; \x7d
    bb2: \x7b return; \x7d
\x7d
"

set_option maxRecDepth 20000 in
/-- The generic body of the text is well formed for a type parameter, and that of its instance at
unit for unit. -/
theorem bodies_well_formed_twin :
    ∃ p fn body r, loadText none twinText.toList = .ok p ∧
      p.fnDecl ⟨"main", "twin"⟩ = some fn ∧ fn.body = some body ∧
      p.resolve ⟨"main", "twin"⟩ [.unit] = (.ok ⟨⟨"main", "twin"⟩, [.unit]⟩, r) ∧
      body.WellFormed [.param "T"] (.tuple [.param "T", .param "T"]) ∧
      ∃ inst, r.bodyOf ⟨⟨"main", "twin"⟩, [.unit]⟩ = .ok (some inst) ∧
        inst.WellFormed [.unit] (.tuple [.unit, .unit]) := by
  obtain ⟨p, hload, htest⟩ : ∃ p, loadText none twinText.toList = .ok p ∧
      ((p.fnDecl ⟨"main", "twin"⟩).any fun fn =>
        fn.body.isSome && decide (fn.inputs = [.param "T"]) &&
          decide (fn.output = .tuple [.param "T", .param "T"]) &&
          decide (fn.paramNames = ["T"]) &&
          decide ((p.resolve ⟨"main", "twin"⟩ [.unit]).1 =
            .ok ⟨⟨"main", "twin"⟩, [.unit]⟩)) = true :=
    exists_of_load_chars (by decide +kernel)
  cases hfn : p.fnDecl ⟨"main", "twin"⟩ with
  | none =>
      rw [hfn] at htest
      cases htest
  | some fn =>
      rw [hfn] at htest
      simp only [Option.any_some, Bool.and_eq_true, decide_eq_true_eq] at htest
      obtain ⟨⟨⟨⟨hsome, hinputs⟩, houtput⟩, hparams⟩, hresolve⟩ := htest
      obtain ⟨body, hbody⟩ := Option.isSome_iff_exists.mp hsome
      obtain ⟨⟨hgeneric, -⟩, hinstances⟩ := bodies_well_formed hload hfn hbody
      obtain ⟨inst, hinst, hsound, -⟩ := hinstances p .refl ⟨"main", "twin"⟩ [.unit] _ _
        (Prod.ext hresolve rfl) rfl
      rw [hinputs, houtput] at hgeneric
      rw [hinputs, houtput, hparams] at hsound
      exact ⟨p, fn, body, _, hload, hfn, hbody, Prod.ext hresolve rfl, hgeneric, inst, hinst,
        hsound⟩

end MirAudit.Source
