import MirAudit.Proofs.Check.Names
import MirAudit.Proofs.Source.OneLine

/-!
# How findings read

A finding quotes names and types of the program, which stand on one line each. So does every finding
about a call that cannot be followed, and a verdict says points on one line each: see
`Loaded.orderly_of_search`.
-/

namespace MirAudit

open Source

/-! ## Resolution -/

namespace ResolutionFault

/-- The texts that the wording of a fault quotes. -/
def quoted : ResolutionFault → List String
  | .unknownFn fn | .arity fn _ _ => [fn.symbol]
  | .tooGeneric fn arg => [fn.symbol, arg.render]
  | .unmetBound fn arg bound param => [fn.symbol, arg.render, bound.symbol, param]
  | .missingFn impl target => [impl.symbol, target.symbol]
  | .missingImpl fn selfTy => [fn.symbol, selfTy.render]
  | .noSelf => []

end ResolutionFault

namespace Environment

variable {env : Environment} {P : String → Prop}

variable {id : DefId} {fn : FnDecl} {args : List Ty} {fault : ResolutionFault}

end Environment

/-! ## Calls -/

/-- A finding that is not a mismatch reads on one line if its place and its message do. -/
theorem CheckFault.one_line_render {finding : CheckFault} (hkind : finding.kind ≠ .mismatch)
    (hmessage : OneLine finding.message)
    (hfunction : ∀ function, finding.function = some function → OneLine function) :
    OneLine finding.render := by
  have hplace : OneLine finding.placeText := by
    unfold placeText
    split
    next => decide
    next function hfound _ => exact .append (.append (by decide) (hfunction _ hfound)) (by decide)
    next function block hfound _ =>
      exact .append (.append (.append (.append (by decide) (hfunction _ hfound)) (by decide))
        (.int block)) (by decide)
  have hcomparison : finding.comparisonText = "" := if_neg fun h => hkind h.1
  rw [render, hcomparison, String.append_empty]
  exact hplace.append hmessage

namespace Source.Loaded

variable {l : Loader} {items : List (Spanned ItemTree)} {p : Program} {i : Instance}

end Source.Loaded

/-! ## Verdicts -/

/-- The message is a list of points, each on one line. -/
def Points (message : String) : Prop :=
  ∃ points, points ≠ [] ∧ (∀ point ∈ points, OneLine point) ∧
    message = String.intercalate "\n    - " points

theorem OneLine.points {message : String} (h : OneLine message) : Points message :=
  ⟨[message], List.cons_ne_nil _ _, List.forall_mem_singleton.mpr h,
    String.intercalate_singleton.symm⟩

theorem Program.ReportsUndeclared.one_line {p : Program} {finding : CheckFault}
    (h : p.ReportsUndeclared finding) (hquotable : p.Quotable) : OneLine finding.render := by
  obtain ⟨impl, himpl, rfl⟩ := h
  obtain ⟨htrait, hid⟩ := hquotable.impls impl himpl
  refine CheckFault.one_line_render ?_ ?_ ?_
  · exact nofun
  · exact .append (.append (.append (.append (by decide) htrait) (by decide)) hid) (by decide)
  · exact nofun

namespace Source.Loaded

variable {l : Loader} {items : List (Spanned ItemTree)} {p : Program} {d : Discovery} {fuel : Nat}

end Source.Loaded

end MirAudit
