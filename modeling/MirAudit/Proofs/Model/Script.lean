import MirAudit.Model.Script
import MirAudit.Proofs.Discovery.Closure

/-!
# What a script changes

A scripted query is asked at most once, and only its answer is changed: by the first rule that
applies, and not at all if no rule does. So a script can be laid over an oracle, and a scripted
model answers from the scripted oracle. Read `Model.AnswersFrom.scripted` first: what holds of every
model with fixed answers holds of it under any script.
-/

namespace MirAudit

variable {σ α : Type}

/-! ## One query -/

/-- What an effect makes of an answer. -/
def Effect.change (effect : Effect α) (r : Except Fault α) : Except Fault α :=
  match effect with
  | .fail fault => .error fault
  | .revise change => r.map change
  | .answer value => .ok value

/-- What the first rule that applies makes of an answer. -/
def revised (rules : List (ScriptRule α)) (key : Option String) (r : Except Fault α) :
    Except Fault α :=
  match rules.find? (ScriptRule.applies key) with
  | none => r
  | some rule => rule.effect.change r

section Rules

variable {rules behind : List (ScriptRule α)} {rule : ScriptRule α} {key : Option String}

/-- Behind rules that do not apply, the first one that does decides, whatever follows it. -/
theorem scripted_of_applies (hrules : ∀ other ∈ rules, other.applies key = false)
    (hrule : rule.applies key = true) (q : Query σ α) :
    scripted (rules ++ rule :: behind) key q = scripted [rule] key q := by
  have hskip : rules.find? (ScriptRule.applies key) = none := by
    simpa using hrules
  unfold scripted
  rw [List.find?_append, hskip, Option.none_or, List.find?_cons_of_pos hrule,
    List.find?_cons_of_pos hrule]

/-- Where no rule applies, a query stays as it is. -/
theorem scripted_of_not_applies (hrules : ∀ other ∈ rules, other.applies key = false)
    (q : Query σ α) : scripted rules key q = q := by
  have hskip : rules.find? (ScriptRule.applies key) = none := by
    simpa using hrules
  unfold scripted
  rw [hskip]

/-- A scripted query answers what the rules make of the answer to the query. The state is the one
that the query leaves, or the query was not asked. -/
theorem ask_scripted (rules : List (ScriptRule α)) (key : Option String) (q : Query σ α) (s : σ) :
    ((scripted rules key q).ask s).1 = revised rules key (q.ask s).1 ∧
      (((scripted rules key q).ask s).2 = (q.ask s).2 ∨ ((scripted rules key q).ask s).2 = s) := by
  unfold scripted revised
  cases rules.find? (ScriptRule.applies key) with
  | none => exact ⟨rfl, Or.inl rfl⟩
  | some rule =>
      obtain ⟨condition, fault | change | value⟩ := rule
      · exact ⟨rfl, Or.inr rfl⟩
      · show ((change <$> q).ask s).1 = (q.ask s).1.map change ∧
          (((change <$> q).ask s).2 = (q.ask s).2 ∨ _)
        rw [map_eq_pure_bind, Query.ask_bind]
        rcases q.ask s with ⟨fault | answer, next⟩
        · exact ⟨rfl, Or.inl rfl⟩
        · exact ⟨rfl, Or.inl rfl⟩
      · exact ⟨rfl, Or.inr rfl⟩

/-- A query with a fixed answer has one under any rules. -/
theorem Query.Answers.scripted {inv : σ → Prop} {q : Query σ α} {r : Except Fault α}
    (hq : q.Answers inv r) (rules : List (ScriptRule α)) (key : Option String) :
    (scripted rules key q).Answers inv (revised rules key r) := by
  intro s hs
  obtain ⟨hanswer, hstate⟩ := ask_scripted rules key q s
  obtain ⟨houtcome, hnext⟩ := hq s hs
  refine ⟨hanswer.trans (congrArg _ houtcome), ?_⟩
  rcases hstate with hstate | hstate
  · rwa [hstate]
  · rwa [hstate]

/-- No answer becomes a setup fault unless a rule says so. -/
theorem revised_ne_setup {r : Except Fault α} {message : String}
    (hrules : ∀ rule ∈ rules, rule.effect ≠ .fail (.setup message))
    (hr : r ≠ .error (.setup message)) : revised rules key r ≠ .error (.setup message) := by
  unfold revised
  cases hfound : rules.find? (ScriptRule.applies key) with
  | none => exact hr
  | some rule =>
      have hrule := hrules rule (List.mem_of_find?_eq_some hfound)
      obtain ⟨condition, effect⟩ := rule
      show effect.change r ≠ _
      cases effect with
      | fail fault => exact fun h => hrule (congrArg Effect.fail (Except.error.inj h))
      | revise change =>
          cases r with
          | ok value => exact fun h => nomatch h
          | error fault => exact fun h => hr (congrArg Except.error (Except.error.inj h))
      | answer value => exact fun h => nomatch h

end Rules

/-! ## Whole models -/

/-- Without rules a model stays as it is. -/
theorem Model.scripted_nothing (m : Model σ) : m.scripted {} = m :=
  rfl

/-- The answers of an oracle under a script. -/
def Oracle.scripted (o : Oracle) (script : Script) : Oracle where
  bodyOf i := revised script.bodyOf (Keyed.key i) (o.bodyOf i)
  resolve fn args := revised script.resolve (Keyed.key fn) (o.resolve fn args)

variable {m : Model σ} {o : Oracle} {inv : σ → Prop}

/-- A model that answers from an oracle answers under a script from the scripted oracle. -/
theorem Model.AnswersFrom.scripted (hm : m.AnswersFrom o inv) (script : Script) :
    (m.scripted script).AnswersFrom (o.scripted script) inv where
  bodyOf i := (hm.bodyOf i).scripted script.bodyOf (Keyed.key i)
  resolve fn args := (hm.resolve fn args).scripted script.resolve (Keyed.key fn)

/-- A script makes no answer a setup fault unless a rule says so. -/
theorem Oracle.NeverFatal.scripted (ho : o.NeverFatal) {script : Script}
    (hbody : ∀ rule ∈ script.bodyOf, ∀ message, rule.effect ≠ .fail (.setup message))
    (hresolve : ∀ rule ∈ script.resolve, ∀ message, rule.effect ≠ .fail (.setup message)) :
    (o.scripted script).NeverFatal where
  bodyOf i message :=
    revised_ne_setup (fun rule hrule => hbody rule hrule message) (ho.bodyOf i message)
  resolve fn args message :=
    revised_ne_setup (fun rule hrule => hresolve rule hrule message) (ho.resolve fn args message)

/-- A script that says nothing about bodies and resolution leaves the edges as they are, whatever
else it changes. -/
theorem Oracle.edges_scripted {script : Script} (hbody : script.bodyOf = [])
    (hresolve : script.resolve = []) : (o.scripted script).edges = o.edges := by
  have hsame : o.scripted script = o := by
    unfold Oracle.scripted
    rw [hbody, hresolve]
    rfl
  rw [hsame]

/-- An instance whose body a rule takes away has a single edge, which is broken, and the edges of the
others stay. -/
theorem Oracle.edges_without_body {script : Script} {i : Instance} {fault : Fault}
    (hbody : script.bodyOf = [⟨some i.name, .fail fault⟩]) (hresolve : script.resolve = [])
    (j : Instance) : (o.scripted script).edges j =
      if j.name = i.name then [.broken (fault.finding.located j.name none)] else o.edges j := by
  have hcalls : (o.scripted script).follow = o.follow := by
    funext caller locals site
    unfold follow target Oracle.scripted
    rw [hresolve]
    rfl
  have happlies : ScriptRule.applies (some j.name) (⟨some i.name, .fail fault⟩ : ScriptRule
      (Option Body)) = decide (j.name = i.name) := by
    simp [ScriptRule.applies]
  have hanswer : (o.scripted script).bodyOf j =
      if j.name = i.name then .error fault else o.bodyOf j := by
    show revised script.bodyOf (some j.name) (o.bodyOf j) = _
    unfold revised
    rw [hbody, List.find?_cons, happlies]
    by_cases hname : j.name = i.name
    · rw [decide_eq_true hname, if_pos hname]
      rfl
    · rw [decide_eq_false hname, if_neg hname]
      rfl
  unfold edges callSites
  rw [hanswer, hcalls]
  by_cases hname : j.name = i.name
  · rw [if_pos hname, if_pos hname]
  · rw [if_neg hname, if_neg hname]

end MirAudit
