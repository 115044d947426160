import MirAudit.Proofs.Discovery.Calls
import MirAudit.Proofs.Outcome

/-!
# What a search reports

A search accounts for every call of every instance that it enters. A call leads to an instance that
is entered too, or it is counted as indirect, or it is a finding; `Accounts` says that none is lost
and none is counted twice. The account is that of the instances, in the order in which they are
entered, so that searches from the same roots in another order report the same.
-/

namespace MirAudit

/-- What a search has found is an account of all calls of the instances that it entered. -/
structure Discovery.Accounts (o : Oracle) (d : Discovery) : Prop where
  /-- A call of a body that can be read and walked leads to an instance that was entered, or it is
  counted, or it is a finding at its block. -/
  calls : ∀ i ∈ d.instances, ∀ body, o.bodyOf i = .ok (some body) → body.walk.stuck = none →
    ∀ (index : Nat) block func args dest target, body.blocks[index]? = some block →
      block.terminator = .call func args dest target →
        match o.fate body.locals func with
        | .direct callee => callee ∈ d.instances
        | .indirect => 0 < d.indirectCalls
        | .broken finding => finding.located i.name (some index) ∈ d.errors
  /-- The calls through function pointers are counted. -/
  indirect : d.indirectCalls = (d.instances.map o.indirectCalls).sum
  /-- The findings are about the bodies that cannot be read or walked and about the calls that
  cannot be followed. -/
  errors : d.errors = d.instances.flatMap o.findings
  /-- The calls that are followed, the indirect calls and the findings about blocks are as many as
  there are calls. -/
  total : (d.instances.flatMap o.outgoing).length =
    (d.instances.flatMap o.callees).length + d.indirectCalls +
      d.errors.countP fun finding => finding.block.isSome

namespace Discovery

variable {o : Oracle} {roots : List Instance} {d : Discovery}

/-- The calls of several instances are followed, indirect or findings with a block. -/
theorem length_outgoing_all (o : Oracle) (instances : List Instance) :
    (instances.flatMap o.outgoing).length =
      (instances.flatMap o.callees).length + (instances.map o.indirectCalls).sum +
        (instances.flatMap o.findings).countP fun finding => finding.block.isSome := by
  induction instances with
  | nil => rfl
  | cons i instances ih =>
      simp only [List.flatMap_cons, List.length_append, List.map_cons, List.sum_cons,
        List.countP_append, ih, Oracle.length_outgoing]
      omega

/-- A search over the edges of an oracle accounts for all calls when nothing is pending. -/
theorem Faithful.accounts (h : d.Faithful o.edges roots) (hpending : d.pending = []) :
    d.Accounts o := by
  have hindirect : d.indirectCalls = (d.instances.map o.indirectCalls).sum := by
    simpa only [Oracle.indirect_calls_eq] using h.indirect
  have herrors : d.errors = d.instances.flatMap o.findings := by
    simpa only [Oracle.findings_eq] using h.errors
  refine ⟨?_, hindirect, herrors, ?_⟩
  · intro i hi body hbody hwalk index block func args dest target hblock hcall
    have hmem : (index, o.fate body.locals func) ∈ o.outgoing i :=
      (Oracle.mem_outgoing hbody hwalk).mpr
        ⟨block, func, args, dest, target, hblock, hcall, rfl⟩
    cases hfate : o.fate body.locals func with
    | direct callee =>
        have hcallee : callee ∈ o.callees i :=
          List.mem_filterMap.mpr ⟨_, hmem, by rw [hfate]; rfl⟩
        rw [← Oracle.callees_eq] at hcallee
        simpa [hpending] using h.closed i hi callee hcallee
    | indirect =>
        have hcount : 0 < o.indirectCalls i :=
          List.countP_pos_iff.mpr ⟨_, hmem, by rw [hfate]; rfl⟩
        rw [hindirect]
        exact List.sum_pos_iff_exists_pos_nat.mpr ⟨_, List.mem_map_of_mem hi, hcount⟩
    | broken finding =>
        rw [herrors]
        refine List.mem_flatMap.mpr ⟨i, hi, ?_⟩
        rw [Oracle.findings, Oracle.obstacle_of_walk hbody hwalk]
        exact List.mem_filterMap.mpr ⟨_, hmem, by rw [hfate]; rfl⟩
  · rw [hindirect, herrors]
    exact length_outgoing_all o d.instances

/-- Two searches from the same roots, in whatever order these are given, enter the same instances. -/
theorem Faithful.perm {roots' : List Instance} {d' : Discovery} {edges : Instance → List Edge}
    (h : d.Faithful edges roots) (h' : d'.Faithful edges roots') (hpending : d.pending = [])
    (hpending' : d'.pending = []) (hroots : ∀ i, i ∈ roots' ↔ i ∈ roots) :
    d'.instances.Perm d.instances := by
  refine (List.perm_ext_iff_of_nodup h'.nodup h.nodup).mpr fun i => ?_
  simp only [h.mem_iff hpending, h'.mem_iff hpending', Reaches, hroots]

/-- An account depends on the instances alone, and not on their order. -/
theorem Accounts.perm {d' : Discovery} (h : d.Accounts o) (h' : d'.Accounts o)
    (hperm : d'.instances.Perm d.instances) :
    d'.errors.Perm d.errors ∧ d'.indirectCalls = d.indirectCalls := by
  rw [h.errors, h'.errors, h.indirect, h'.indirect]
  exact ⟨hperm.flatMap_right o.findings, (hperm.map o.indirectCalls).sum_nat⟩

end Discovery

variable {σ : Type} {m : Model σ} {o : Oracle} {inv : σ → Prop}

/-- When a search of a model with fixed answers ends, its report accounts for every call of every
instance that it entered. A search from the same roots, given in another order or several times,
ends as well, and reports the same findings, in some order, and as many indirect calls. -/
theorem discover_accounts (hm : m.AnswersFrom o inv) (ho : o.NeverFatal) {roots : List Instance}
    {fuel : Nat} {d : Discovery} {s next : σ} (hs : inv s)
    (h : (m.discover fuel roots).outcome s = (.ok d, next)) :
    d.Accounts o ∧
      ∀ roots', (∀ i, i ∈ roots' ↔ i ∈ roots) → ∀ s', inv s' →
        (∃ fuel' d' next', (m.discover fuel' roots').outcome s' = (.ok d', next')) ∧
        ∀ fuel' d' next', (m.discover fuel' roots').outcome s' = (.ok d', next') →
          d'.errors.Perm d.errors ∧ d'.indirectCalls = d.indirectCalls := by
  have hsearch := hm.search_of_explore hs h
  obtain ⟨hfaithful, hpending⟩ := (Discovery.Faithful.start o.edges roots).search hsearch
  refine ⟨hfaithful.accounts hpending, fun roots' hroots s' hs' => ⟨?_, ?_⟩⟩
  · have hreaches : {i | Discovery.Reaches o.edges roots' i} =
        {i | Discovery.Reaches o.edges roots i} := by
      simp only [Discovery.Reaches, hroots]
    obtain ⟨fuel', d', hsearch'⟩ := Discovery.search_ends_iff.mpr
      (hreaches ▸ Discovery.search_ends_iff.mp ⟨fuel, d, hsearch⟩)
    obtain ⟨next', -, houtcome⟩ := hm.explore ho fuel' (.start roots') hs'
    rw [hsearch'] at houtcome
    exact ⟨fuel', d', next', houtcome⟩
  · intro fuel' d' next' h'
    obtain ⟨hfaithful', hpending'⟩ :=
      (Discovery.Faithful.start o.edges roots').search (hm.search_of_explore hs' h')
    exact (hfaithful.accounts hpending).perm (hfaithful'.accounts hpending')
      (hfaithful.perm hfaithful' hpending hpending' hroots)

/-- The account of a search that meets every kind of fate: the findings are about the call that
cannot be resolved, the body that cannot be walked and the call of a slot, in the order in which
their instances are entered. -/
theorem discover_accounts_tournament :
    ∃ fuel d next,
      (Oracle.tournament.model.discover fuel [.inGame "serve", .inGame "rally"]).outcome () =
        (.ok d, next) ∧
      d.indirectCalls = 1 ∧
      d.errors.map (fun finding => (finding.function, finding.block)) =
        [(some "game::return", some 2), (some "game::score", none),
          (some "game::rally", some 1)] ∧
      d.Accounts Oracle.tournament ∧
      ∀ roots', (∀ i, i ∈ roots' ↔ i ∈ [.inGame "serve", .inGame "rally"]) → ∀ s', True →
        (∃ fuel' d' next',
          (Oracle.tournament.model.discover fuel' roots').outcome s' = (.ok d', next')) ∧
        ∀ fuel' d' next',
          (Oracle.tournament.model.discover fuel' roots').outcome s' = (.ok d', next') →
            d'.errors.Perm d.errors ∧ d'.indirectCalls = d.indirectCalls := by
  have hrun : ((Oracle.tournament.model.discover 10
      [.inGame "serve", .inGame "rally"]).outcome ()).1.toOption.any (fun d =>
        d.indirectCalls = 1 ∧ d.errors.map (fun finding => (finding.function, finding.block)) =
          [(some "game::return", some 2), (some "game::score", none),
            (some "game::rally", some 1)]) = true := by
    decide +kernel
  obtain ⟨d, hd, hreport⟩ := Outcome.exists_of_any hrun
  obtain ⟨hindirect, herrors⟩ := of_decide_eq_true hreport
  have hends : (Oracle.tournament.model.discover 10
      [.inGame "serve", .inGame "rally"]).outcome () = (.ok d, ()) := Prod.ext hd rfl
  exact ⟨10, d, (), hends, hindirect, herrors,
    discover_accounts Oracle.tournament.answers_from_model Oracle.tournament_never_fatal trivial
      hends⟩

end MirAudit
