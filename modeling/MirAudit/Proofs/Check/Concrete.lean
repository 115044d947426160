import MirAudit.Proofs.Discovery.Termination
import MirAudit.Proofs.Source.Concrete
import MirAudit.Proofs.Source.Resolved

/-!
# Searches meet concrete types alone

What can be reached from the roots was resolved, so that its arguments are concrete, and so is its
body. The arguments of a call stand in the body, and are not too generic; a finding about another
failure never reads as if they were: `Loaded.not_too_generic`. Read `concrete_of_text` first.
-/

namespace MirAudit

/-- The finding says that an argument is too generic to resolve its function. -/
def CheckFault.TooGeneric (finding : CheckFault) : Prop :=
  ∃ fn arg, finding.message = (ResolutionFault.tooGeneric fn arg).message

/-- No parameter occurs in the arguments of what was entered, and no argument was found too
generic. -/
structure Discovery.Concrete (d : Discovery) : Prop where
  args : ∀ i ∈ d.instances, ∀ arg ∈ i.args, ∀ name, ¬ arg.Mentions name
  errors : ∀ finding ∈ d.errors, ¬ finding.TooGeneric

/-! ## How findings read -/

theorem last_append {a b : String} {c : Char} (h : b.toList.getLast? = some c) :
    (a ++ b).toList.getLast? = some c := by
  rw [String.toList_append, List.getLast?_append, h, Option.some_or]

theorem last_append_ne {a b : String} {c : Char} (h : b.toList.getLast? = some c) (hc : c ≠ 'c') :
    (a ++ b).toList.getLast? ≠ some 'c' := by
  rw [last_append h]
  exact fun heq => hc (Option.some.inj heq)

/-- The wording ends in the last letter of `generic`. -/
theorem ResolutionFault.last_too_generic (fn : DefId) (arg : Ty) :
    (tooGeneric fn arg).message.toList.getLast? = some 'c' :=
  last_append rfl

/-- Other failures are worded differently: they end in a mark or in a number. -/
theorem ResolutionFault.last_of_plain {fault : ResolutionFault} (h : fault.Plain) :
    fault.message.toList.getLast? ≠ some 'c' := by
  cases fault with
  | unknownFn | missingFn | missingImpl =>
      have hmark : ("`" : String).toList.getLast? = some '`' := rfl
      exact last_append_ne hmark (by decide)
  | unmetBound =>
      have hmark : ("`)" : String).toList.getLast? = some ')' := rfl
      exact last_append_ne hmark (by decide)
  | arity fn expected found =>
      obtain ⟨digit, hdigit⟩ : ∃ digit, (toString found).toList.getLast? = some digit := by
        rw [← Option.isSome_iff_exists, List.getLast?_isSome]
        simp [Nat.toDigits_ne_nil]
      refine last_append_ne hdigit ?_
      rintro rfl
      have hmem := List.mem_of_getLast? hdigit
      rw [Nat.toString_eq_repr, Nat.toList_repr] at hmem
      exact absurd (Nat.isDigit_of_mem_toDigits (by decide) (by decide) hmem) (by decide)
  | tooGeneric | noSelf => exact h.elim

theorem last_unexpected_callee (ty : Ty) :
    (unexpectedCallee ty).message.toList.getLast? ≠ some 'c' := by
  have hmark : ("`" : String).toList.getLast? = some '`' := rfl
  exact last_append_ne hmark (by decide)

theorem CheckFault.not_too_generic {finding : CheckFault}
    (h : finding.message.toList.getLast? ≠ some 'c') : ¬ finding.TooGeneric := by
  intro hgeneric
  obtain ⟨fn, arg, heq⟩ := hgeneric
  rw [heq] at h
  exact h (ResolutionFault.last_too_generic fn arg)

/-! ## What can be reached -/

namespace Source.Loaded

variable {l : Loader} {items : List (Spanned ItemTree)} {p : Program} {i : Instance}

/-- What can be reached has concrete arguments. -/
theorem concrete_of_reaches (hp : Loaded l items p) (h : p.oracle.Reaches p.auditRoots i) :
    ∀ arg ∈ i.args, arg.hasParam = false := by
  obtain ⟨id, args, hresolve⟩ := hp.resolved_of_reaches h
  exact Environment.resolve_concrete hresolve

/-- A call with concrete arguments fails with a finding that reads differently. -/
theorem last_of_resolve_error (hp : Loaded l items p) {id : DefId} {args : List Ty} {fault : Fault}
    (hargs : ∀ arg ∈ args, arg.hasParam = false) (h : p.oracle.resolve id args = .error fault) :
    fault.finding.message.toList.getLast? ≠ some 'c' := by
  obtain ⟨cause, hcause, rfl⟩ := Program.oracle_resolve_eq_error.mp h
  rw [hp.resolution_fault hcause]
  exact ResolutionFault.last_of_plain
    (Environment.plain_of_concrete hp.generics_of_trait hargs hcause)

/-- No finding about what can be reached says that an argument is too generic. -/
theorem not_too_generic (hp : Loaded l items p) (h : p.oracle.Reaches p.auditRoots i)
    {finding : CheckFault} (hfinding : finding ∈ (p.oracle.edges i).filterMap Edge.fault?) :
    ¬ finding.TooGeneric := by
  obtain ⟨body, site, fault, hbody, hfits, hsite, htarget, rfl⟩ := hp.call_of_finding h hfinding
  refine CheckFault.not_too_generic ?_
  change fault.finding.message.toList.getLast? ≠ some 'c'
  obtain ⟨ty, hty, rfl | ⟨fn, tys, rfl, hresolve⟩⟩ :=
    Oracle.target_error_of_site hfits hsite htarget
  · exact last_unexpected_callee ty
  · -- the arguments stand in the body, which is concrete
    have hconcrete := hp.body_concrete (hp.concrete_of_reaches h) hbody _ hty
    exact hp.last_of_resolve_error (Ty.has_param_eq_false_iff.mp hconcrete).2 hresolve

/-- What holds at every point of a search from the roots makes it concrete. -/
theorem concrete_of_faithful (hp : Loaded l items p) {d : Discovery}
    (h : d.Faithful p.oracle.edges p.auditRoots) : d.Concrete where
  args i hi := by
    have hreaches := Oracle.reaches_iff.mp (h.reached i (Or.inl hi))
    exact fun arg harg =>
      Ty.has_param_eq_false_iff_mentions.mp (hp.concrete_of_reaches hreaches arg harg)
  errors finding hfinding := by
    rw [h.errors] at hfinding
    obtain ⟨i, hi, hmem⟩ := List.mem_flatMap.mp hfinding
    exact hp.not_too_generic (Oracle.reaches_iff.mp (h.reached i (Or.inl hi))) hmem

/-- Every point of a search from the roots is concrete. -/
theorem after_concrete (hp : Loaded l items p) {q : Program} (hq : p.InternedFrom q) (n : Nat) :
    ∃ d next, (Program.model.after n (.start p.auditRoots)).ask q = (.ok d, next) ∧
      d.Concrete := by
  have hpoints := (Program.answers_from_oracle hp.coherent).after p.oracle_never_fatal n
    (.start p.auditRoots)
  have hfaithful := (Discovery.Faithful.start p.oracle.edges p.auditRoots).iterate n
  exact ⟨_, _, Prod.ext (hpoints q hq).1 rfl, hp.concrete_of_faithful hfaithful⟩

/-- The body of a resolved instance is concrete, whatever was interned before. -/
theorem resolved_body_concrete (hp : Loaded l items p) {q r : Program} (hq : p.InternedFrom q)
    {id : DefId} {args : List Ty} {body : Body} (h : q.resolve id args = (.ok i, r))
    (hbody : r.bodyOf i = .ok (some body)) : ∀ ty ∈ body.types, ty.hasParam = false := by
  obtain ⟨hanswer, hnext⟩ := hq.resolve hp.coherent.idempotent id args
  rw [h] at hanswer hnext
  replace hnext : p.InternedFrom r := hnext
  have hresolve := Program.oracle_resolve_eq_ok.mp hanswer.symm
  rw [hnext.same] at hbody
  exact hp.body_concrete (Environment.resolve_concrete hresolve) hbody

end Source.Loaded

/-- In a program that was read from a text, whatever was resolved before: no parameter occurs in the
types of the body of an instance that resolution gives. Therefore a search from the roots is
concrete at every point, and when it ends. -/
theorem concrete_of_text {file : Option String} {text : List Char} {p : Program}
    (h : Source.loadText file text = .ok p) :
    ∀ q, p.Resolving q →
      (∀ id args i r body, q.resolve id args = (.ok i, r) → r.bodyOf i = .ok (some body) →
        ∀ ty ∈ body.types, ∀ name, ¬ ty.Mentions name) ∧
      ∀ roots r, Program.model.roots.ask q = (.ok roots, r) →
        (∀ n, ∃ d next, (Program.model.after n (.start roots)).ask r = (.ok d, next) ∧
          d.Concrete) ∧
        ∀ fuel d next, (Program.model.discover fuel roots).outcome r = (.ok d, next) →
          d.Concrete := by
  obtain ⟨items, l, -, -, hp⟩ := Source.loaded_of_text h
  intro q hq
  have hinterned := Program.InternedFrom.of_resolving hq hp.interned hp.coherent
  constructor
  · intro id args i r body hresolve hbody ty hty
    exact Ty.has_param_eq_false_iff_mentions.mp
      (hp.resolved_body_concrete hinterned hresolve hbody ty hty)
  · intro roots r hroots
    obtain ⟨rfl, hr⟩ := hp.roots_eq hinterned hroots
    refine ⟨hp.after_concrete hr, fun fuel d next hd => ?_⟩
    -- the end of the search is one of its points
    obtain ⟨n, hn⟩ := Model.exists_after_of_explore hd
    obtain ⟨point, _, hask, hconcrete⟩ := hp.after_concrete hr n
    rw [hask] at hn
    cases hn
    exact hconcrete

/-- In a program whose search never ends, the body of a resolved instance and every point of the
search are concrete. -/
theorem concrete_of_text_doubling :
    ∃ p q r i body roots, Source.loadText none doublingText.toList = .ok p ∧ p.Resolving p ∧
      p.resolve ⟨"main", "double"⟩ [.unit] = (.ok i, r) ∧ r.bodyOf i = .ok (some body) ∧
      (∀ ty ∈ body.types, ∀ name, ¬ ty.Mentions name) ∧
      Program.model.roots.ask p = (.ok roots, q) ∧
      ∀ n, ∃ d next, (Program.model.after n (.start roots)).ask q = (.ok d, next) ∧
        d.Concrete := by
  obtain ⟨p, hload, hdoubling⟩ := load_doubling
  obtain ⟨items, l, -, -, hp⟩ := Source.loaded_of_text hload
  have hstart : p.InternedFrom p := .start hp.interned
  have hunit : Ty.unit.hasParam = false := rfl
  obtain ⟨hresolve, hbody⟩ := Program.double_instance hdoubling hunit
  obtain ⟨hanswer, hnext⟩ := hstart.resolve hp.coherent.idempotent ⟨"main", "double"⟩ [.unit]
  rw [Program.oracle_resolve_eq_ok.mpr hresolve] at hanswer
  obtain ⟨hroots, -⟩ := hp.roots_answer (Program.not_generic_entry_doubling hdoubling) p hstart
  obtain ⟨hbodies, hsearch⟩ := concrete_of_text hload p .refl
  have hask : p.resolve ⟨"main", "double"⟩ [.unit] = (.ok _, _) := Prod.ext hanswer rfl
  have hfound : (p.resolve ⟨"main", "double"⟩ [.unit]).2.bodyOf ⟨⟨"main", "double"⟩, [.unit]⟩ =
      .ok (some (doublingBody (.tuple [.unit, .unit]))) := by
    rw [hnext.same]
    exact hbody
  exact ⟨p, _, _, _, _, _, hload, .refl, hask, hfound, hbodies _ _ _ _ _ hask hfound,
    Prod.ext hroots rfl, (hsearch _ _ (Prod.ext hroots rfl)).1⟩

end MirAudit
