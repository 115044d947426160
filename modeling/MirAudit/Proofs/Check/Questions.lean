import MirAudit.Check.Suite
import MirAudit.Proofs.Discovery.Edges

/-!
# What a check depends on

The queries of a model are questions. Where the answer to each question is fixed, a run is
determined by the answers to the questions that it asks: with other answers to other questions it
goes the same way. And where it ends in a setup fault, one of these answers was that fault. Read
`Query.Heeds` first, which says both; `Heeds.bind` carries it through a query, and there is one
lemma for each check and for the search.
-/

namespace MirAudit

/-- What a model can be asked. -/
inductive Question where
  | entryFn
  | localItems
  | instanceOf (item : Item)
  | bodyOfItem (item : Item)
  | bodyOf (i : Instance)
  | resolve (fn : DefId) (args : List Ty)
  | localCrate
  | externalCrates
  | findCrate (name : String)
  | traitDecls
  | traitDecl (decl : DefId)
  | traitImpls
  | traitImpl (decl : DefId)

/-- What an answer to a question is. -/
abbrev Question.Answer : Question → Type
  | .entryFn => Option Item
  | .localItems => List Item
  | .instanceOf _ => Option Instance
  | .bodyOfItem _ => Option Body
  | .bodyOf _ => Option Body
  | .resolve _ _ => Instance
  | .localCrate => Crate
  | .externalCrates => List Crate
  | .findCrate _ => Option Crate
  | .traitDecls => List TraitDecl
  | .traitDecl _ => TraitDecl
  | .traitImpls => List TraitImpl
  | .traitImpl _ => TraitImpl

/-- For each question an answer, or the fault that the question raises. -/
abbrev Replies :=
  (question : Question) → Except Fault question.Answer

namespace Replies

/-- Asks a question, and notes it. -/
def ask (r : Replies) (question : Question) : Query (List Question) question.Answer :=
  .steps fun asked => (r question, asked ++ [question])

/-- The model that gives these answers. Its state is the list of the questions asked so far. -/
def model (r : Replies) : Model (List Question) where
  entryFn := r.ask .entryFn
  localItems := r.ask .localItems
  instanceOf item := r.ask (.instanceOf item)
  bodyOfItem item := r.ask (.bodyOfItem item)
  bodyOf i := r.ask (.bodyOf i)
  resolve fn args := r.ask (.resolve fn args)
  localCrate := r.ask .localCrate
  externalCrates := r.ask .externalCrates
  findCrate name := r.ask (.findCrate name)
  traitDecls := r.ask .traitDecls
  traitDecl decl := r.ask (.traitDecl decl)
  traitImpls := r.ask .traitImpls
  traitImpl decl := r.ask (.traitImpl decl)

/-- One of the questions raises this setup fault. -/
def Raises (r : Replies) (asked : List Question) (message : String) : Prop :=
  ∃ question ∈ asked, r question = .error (.setup message)

/-- What was raised stays raised when more is asked. -/
theorem Raises.mono {r : Replies} {asked more : List Question} {message : String}
    (h : r.Raises asked message) (hsubset : asked ⊆ more) : r.Raises more message := by
  obtain ⟨question, hquestion, hfault⟩ := h
  exact ⟨question, hsubset hquestion, hfault⟩

/-- The answers to the questions of a search. -/
def oracle (r : Replies) : Oracle where
  bodyOf i := r (.bodyOf i)
  resolve fn args := r (.resolve fn args)

end Replies

/-- The fault does not end a run. -/
def Fault.Harmless : Fault → Prop
  | .setup _ => False
  | _ => True

/-- The check of a body fails with a finding or a crash. -/
theorem Body.check_harmless {name : String} {body : Body} {fault : Fault}
    (h : body.check name = .error fault) : fault.Harmless := by
  unfold Body.check checkTrace at h
  split at h
  · cases h
    trivial
  · next events _ =>
    cases hcompare : (Snapshot.ofEvents events).compare name body with
    | ok _ =>
        simp only [hcompare, liftFault] at h
        cases h
    | error finding =>
        simp only [hcompare, liftFault] at h
        cases h
        trivial

/-! ## Queries -/

variable {α β : Type} {r r' : Replies} {own : Fault → Prop}

/-- From any questions asked before, the query gives `a` and asks some more. -/
def Query.Asks (q : Query (List Question) α) (a : Except Fault α) (asked : List Question) : Prop :=
  ∀ before, q.ask before = (a, before ++ asked)

/-- The query `q` gives an answer or a fault. A fault is one of its own, or it is a setup fault that
is raised by a question that it asks. Where the answers of `r'` to these questions are those of `r`,
the query `q'` asks and gives the same. -/
def Query.Heeds (r r' : Replies) (own : Fault → Prop) (q q' : Query (List Question) α) : Prop :=
  ∃ a asked, q.Asks a asked ∧
    (∀ fault, a = .error fault →
      own fault ∨ ∃ message, fault = .setup message ∧ r.Raises asked message) ∧
    ((∀ question ∈ asked, r question = r' question) → q'.Asks a asked)

namespace Query.Heeds

/-- A single question, whatever faults are its own besides the harmless ones. -/
theorem ask_of (hown : ∀ fault, fault.Harmless → own fault) (question : Question) :
    (r.ask question).Heeds r r' own (r'.ask question) := by
  refine ⟨r question, [question], fun _ => rfl, fun fault hfault => ?_, fun hsame _ => ?_⟩
  · cases fault with
    | setup message =>
        exact Or.inr ⟨message, rfl, question, List.mem_singleton_self _, hfault⟩
    | check finding => exact Or.inl (hown _ trivial)
    | crash c => exact Or.inl (hown _ trivial)
  · rw [hsame question (List.mem_singleton_self _)]
    rfl

theorem ask (question : Question) : (r.ask question).Heeds r r' Fault.Harmless (r'.ask question) :=
  ask_of (fun _ h => h) question

theorem of_except {result : Except Fault α} (h : ∀ fault, result = .error fault → own fault) :
    (Query.ofExcept result).Heeds r r' own (Query.ofExcept result) := by
  have hasks : (Query.ofExcept result : Query (List Question) α).Asks result [] := fun before => by
    rw [List.append_nil]
    rfl
  exact ⟨result, [], hasks, fun fault hfault => Or.inl (h fault hfault), fun _ => hasks⟩

theorem pure (a : α) : (Pure.pure a : Query (List Question) α).Heeds r r' own (Pure.pure a) :=
  show (Query.ofExcept (.ok a)).Heeds r r' own (Query.ofExcept (.ok a)) from of_except nofun

theorem throw {fault : Fault} (h : own fault) :
    (throw fault : Query (List Question) α).Heeds r r' own (throw fault) := by
  show (Query.ofExcept (.error fault)).Heeds r r' own (Query.ofExcept (.error fault))
  refine of_except ?_
  rintro _ ⟨⟩
  exact h

/-- One query behind another, the second for any answer to the first. -/
theorem bind {q q' : Query (List Question) α} {f f' : α → Query (List Question) β}
    (hq : q.Heeds r r' own q') (hf : ∀ a, (f a).Heeds r r' own (f' a)) :
    (q >>= f).Heeds r r' own (q' >>= f') := by
  obtain ⟨a, asked, hasks, hfault, hsame⟩ := hq
  cases a with
  | error fault =>
      refine ⟨.error fault, asked, fun before => ?_, ?_, fun hagree before => ?_⟩
      · rw [ask_bind, hasks before]
      · rintro _ ⟨⟩
        exact hfault fault rfl
      · rw [ask_bind, hsame hagree before]
  | ok a =>
      obtain ⟨b, more, hmore, hfault', hsame'⟩ := hf a
      refine ⟨b, asked ++ more, fun before => ?_, fun fault hb => ?_, fun hagree before => ?_⟩
      · rw [ask_bind, hasks before, ← List.append_assoc]
        exact hmore _
      · refine (hfault' fault hb).imp_right fun ⟨message, heq, hraises⟩ => ?_
        exact ⟨message, heq, hraises.mono (List.subset_append_right _ _)⟩
      · obtain ⟨hfirst, hsecond⟩ := List.forall_mem_append.mp hagree
        rw [ask_bind, hsame hfirst before, ← List.append_assoc]
        exact hsame' hsecond _

/-- What is attempted only fails with the setup fault of a question. -/
theorem attempt {q q' : Query (List Question) α} (hq : q.Heeds r r' Fault.Harmless q') :
    q.attempt.Heeds r r' own q'.attempt := by
  obtain ⟨a, asked, hasks, hfault, hsame⟩ := hq
  obtain ⟨b, hb, hfault'⟩ : ∃ b : Except Fault (Except CheckFault α),
      (∀ p : Query (List Question) α, p.Asks a asked → p.attempt.Asks b asked) ∧
        ∀ fault, b = .error fault → ∃ message, fault = .setup message ∧ r.Raises asked message := by
    cases a with
    | ok a =>
        refine ⟨.ok (.ok a), fun p hp before => ?_, nofun⟩
        rw [ask_attempt, hp before]
    | error fault =>
        cases hcontain : fault.contain with
        | ok finding =>
            refine ⟨.ok (.error finding), fun p hp before => ?_, nofun⟩
            rw [ask_attempt, hp before]
            simp only [hcontain]
        | error message =>
            obtain rfl : fault = .setup message := by
              cases fault with
              | setup other =>
                  cases hcontain
                  rfl
              | check finding => cases hcontain
              | crash c => cases hcontain
            refine ⟨.error (.setup message), fun p hp before => ?_, ?_⟩
            · rw [ask_attempt, hp before]
              rfl
            · rintro _ ⟨⟩
              exact (hfault _ rfl).resolve_left id
  exact ⟨b, asked, hb q hasks, fun fault h => Or.inr (hfault' fault h),
    fun hagree => hb q' (hsame hagree)⟩

/-- One query for each element of a list, with a list of answers. -/
theorem map_m {f f' : α → Query (List Question) β} (h : ∀ a, (f a).Heeds r r' own (f' a))
    (as : List α) : (as.mapM f).Heeds r r' own (as.mapM f') := by
  induction as with
  | nil => exact pure []
  | cons a as ih =>
      rw [List.mapM_cons, List.mapM_cons]
      exact bind (h a) fun b => bind ih fun bs => pure _

/-- One query for each element of a list, without an answer. -/
theorem for_m {f f' : α → Query (List Question) PUnit} (h : ∀ a, (f a).Heeds r r' own (f' a))
    (as : List α) : (as.forM f).Heeds r r' own (as.forM f') := by
  induction as with
  | nil => exact pure PUnit.unit
  | cons a as ih =>
      show (f a >>= fun _ => as.forM f).Heeds r r' own (f' a >>= fun _ => as.forM f')
      exact bind (h a) fun _ => ih

/-- A comparison fails with a finding. -/
theorem of_check (result : Except CheckFault α) :
    (Query.ofCheck result).Heeds r r' Fault.Harmless (Query.ofCheck result) := by
  refine of_except fun fault hfault => ?_
  cases result with
  | ok a => cases hfault
  | error finding =>
      cases hfault
      trivial

/-- A walk fails with a crash. -/
theorem walk_body (body : Body) :
    (Query.walkBody body).Heeds r r' Fault.Harmless (Query.walkBody body) := by
  unfold Query.walkBody
  cases body.walk.complete with
  | ok _ => exact pure ()
  | error crash => exact throw trivial

end Query.Heeds

/-! ## Checks -/

namespace Replies

open Query (Heeds)

variable (r r')

/-- The roots may end in setup faults of their own, about the entry point. -/
theorem roots_heed : r.model.roots.Heeds r r' (fun _ => True) r'.model.roots := by
  unfold Model.roots Model.entryRoot
  refine .bind (.bind (.ask_of (fun _ _ => trivial) _) fun entry => ?_) fun entry =>
    .bind (.ask_of (fun _ _ => trivial) _) fun items => ?_
  · cases entry with
    | none => exact .pure []
    | some entry =>
        dsimp only
        split
        · exact .throw trivial
        · refine .bind (.ask_of (fun _ _ => trivial) _) fun root => ?_
          cases root with
          | none => exact .throw trivial
          | some root => exact .pure [root]
  · induction items generalizing entry with
    | nil => exact .pure entry
    | cons item items ih =>
        unfold Model.itemRoots
        split
        · exact ih entry
        · refine .bind (.ask_of (fun _ _ => trivial) _) fun i => ?_
          cases i with
          | none => exact ih entry
          | some i => exact ih _

/-- The check of the entry point is determined by the answers to its questions. -/
theorem check_entry_heeds :
    r.model.checkEntry.Heeds r r' Fault.Harmless r'.model.checkEntry := by
  unfold Model.checkEntry
  refine .bind (.ask _) fun entry => ?_
  cases entry with
  | none => exact .pure ()
  | some entry =>
      refine .bind (.ask _) fun body => ?_
      cases body with
      | none => exact .bind (.ask _) fun items => .of_check _
      | some body => exact .bind (.walk_body body) fun _ => .bind (.ask _) fun items => .of_check _

/-- The check of the bodies is determined by the answers to its questions. -/
theorem check_bodies_heed :
    r.model.checkBodies.Heeds r r' Fault.Harmless r'.model.checkBodies := by
  unfold Model.checkBodies
  refine .bind (.ask _) fun items => .for_m (fun item => .bind (.ask _) fun body => ?_) items
  cases body with
  | none => exact .pure _
  | some body => exact .walk_body body

theorem check_crate_heeds (what : String) (crate : Crate) :
    (r.model.checkCrate what crate).Heeds r r' Fault.Harmless (r'.model.checkCrate what crate) :=
  .bind (.ask _) fun _ => .of_check _

/-- The check of the crates is determined by the answers to its questions. -/
theorem check_crates_heed :
    r.model.checkCrates.Heeds r r' Fault.Harmless r'.model.checkCrates := by
  unfold Model.checkCrates
  exact .bind (.ask _) fun crates => .bind (.for_m (check_crate_heeds r r' _) crates) fun _ =>
    .bind (.ask _) fun crate => check_crate_heeds r r' _ crate

/-- The check of an instance is determined by the answers to its questions. -/
theorem check_instance_heeds (i : Instance) :
    (r.model.checkInstance i).Heeds r r' Fault.Harmless (r'.model.checkInstance i) := by
  unfold Model.checkInstance
  refine .bind (.ask _) fun body => ?_
  cases body with
  | none => exact .pure ()
  | some body =>
      exact .bind (.of_except fun fault hfault => body.check_harmless hfault) fun _ => .pure ()

/-- The check of the traits is determined by the answers to its questions. -/
theorem check_traits_heed :
    r.model.checkTraits.Heeds r r' Fault.Harmless r'.model.checkTraits := by
  unfold Model.checkTraits
  refine .bind (.ask _) fun traits => .bind (.for_m (fun decl => ?_) traits) fun _ =>
    .bind (.ask _) fun impls => .for_m (fun impl => ?_) impls
  · exact .bind (.ask _) fun _ => .of_check _
  · exact .bind (.ask _) fun _ => .bind (.of_check _) fun _ => .of_check _

/-! ## The search -/

theorem target_heeds (locals : List LocalDecl) (func : Operand) :
    (r.model.target locals func).Heeds r r' Fault.Harmless (r'.model.target locals func) := by
  unfold Model.target
  refine .bind (.of_except fun fault hfault => ?_) fun callee => ?_
  · cases fault with
    | setup message => exact func.callee_ne_setup locals message hfault
    | check finding => trivial
    | crash c => trivial
  · cases callee with
    | direct fn args => exact .bind (.ask _) fun callee => .pure _
    | indirect => exact .pure _

/-- A call is followed without a fault of its own, since it contains all but setup faults. -/
theorem follow_heeds {own : Fault → Prop} (caller : Instance) (locals : List LocalDecl)
    (site : CallSite) :
    (r.model.follow caller locals site).Heeds r r' own (r'.model.follow caller locals site) := by
  unfold Model.follow
  refine .bind (.attempt (target_heeds r r' locals site.func)) fun result => ?_
  cases result with
  | ok edge => exact .pure edge
  | error finding => exact .pure _

/-- The call sites of an instance are determined by the answers to the questions about it. -/
theorem call_sites_heed (i : Instance) :
    (r.model.callSites i).Heeds r r' Fault.Harmless (r'.model.callSites i) := by
  unfold Model.callSites
  refine .bind (.ask _) fun body => ?_
  cases body with
  | none => exact .pure _
  | some body =>
      dsimp only
      cases body.calls with
      | ok sites => exact .pure _
      | error crash => exact .throw trivial

/-- A search fails in no way of its own. -/
theorem step_heeds (d : Discovery) :
    (r.model.step d).Heeds r r' (fun _ => False) (r'.model.step d) := by
  unfold Model.step
  cases d.pending with
  | nil => exact .pure d
  | cons i rest =>
      dsimp only
      split
      · exact .pure _
      · refine .bind ?_ fun edges => .pure _
        unfold Model.edges
        refine .bind (.attempt (call_sites_heed r r' i)) fun result => ?_
        cases result with
        | ok found => exact .map_m (fun site => follow_heeds r r' i found.1 site) found.2
        | error finding => exact .pure _

end Replies

/-- From any questions asked before, the run gives `a` and asks some more. -/
def Run.Asks (run : Run (List Question) α) (a : Except Halt α) (asked : List Question) : Prop :=
  ∀ before, run.outcome before = (a, before ++ asked)

/-- The run gives an answer, is cut off, or halts with a setup fault that is raised by a question
that it asks. Where the answers of `r'` to its questions are those of `r`, the run `run'` asks and
gives the same. -/
def Run.Heeds (r r' : Replies) (run run' : Run (List Question) α) : Prop :=
  ∃ a asked, run.Asks a asked ∧
    (∀ halt, a = .error halt → halt = .outOfFuel ∨
      ∃ message, halt = .fault (.setup message) ∧ r.Raises asked message) ∧
    ((∀ question ∈ asked, r question = r' question) → run'.Asks a asked)

namespace Run.Heeds

theorem pure (a : α) : (Pure.pure a : Run (List Question) α).Heeds r r' (Pure.pure a) := by
  have hasks : (Pure.pure a : Run (List Question) α).Asks (.ok a) [] := fun before => by
    rw [List.append_nil]
    rfl
  exact ⟨.ok a, [], hasks, nofun, fun _ => hasks⟩

theorem out_of_fuel :
    (throw .outOfFuel : Run (List Question) α).Heeds r r' (throw .outOfFuel) := by
  have hasks : (throw .outOfFuel : Run (List Question) α).Asks (.error .outOfFuel) [] :=
    fun before => by
      rw [List.append_nil]
      rfl
  refine ⟨.error .outOfFuel, [], hasks, ?_, fun _ => hasks⟩
  rintro _ ⟨⟩
  exact Or.inl rfl

/-- A query that fails in no way of its own stands in front of a run. -/
theorem bind {q q' : Query (List Question) α} {f f' : α → Run (List Question) β}
    (hq : q.Heeds r r' (fun _ => False) q') (hf : ∀ a, (f a).Heeds r r' (f' a)) :
    (q.inRun >>= f).Heeds r r' (q'.inRun >>= f') := by
  obtain ⟨a, asked, hasks, hfault, hsame⟩ := hq
  cases a with
  | error fault =>
      refine ⟨.error (.fault fault), asked, fun before => ?_, ?_, fun hagree before => ?_⟩
      · rw [Run.outcome_bind, Query.outcome_inRun, hasks before]
      · rintro _ ⟨⟩
        obtain ⟨message, rfl, hraises⟩ := (hfault fault rfl).resolve_left id
        exact Or.inr ⟨message, rfl, hraises⟩
      · rw [Run.outcome_bind, Query.outcome_inRun, hsame hagree before]
  | ok a =>
      obtain ⟨b, more, hmore, hhalt, hsame'⟩ := hf a
      refine ⟨b, asked ++ more, fun before => ?_, fun halt hb => ?_, fun hagree before => ?_⟩
      · rw [Run.outcome_bind, Query.outcome_inRun, hasks before, ← List.append_assoc]
        exact hmore _
      · refine (hhalt halt hb).imp_right fun ⟨message, heq, hraises⟩ => ?_
        exact ⟨message, heq, hraises.mono (List.subset_append_right _ _)⟩
      · obtain ⟨hfirst, hsecond⟩ := List.forall_mem_append.mp hagree
        rw [Run.outcome_bind, Query.outcome_inRun, hsame hfirst before, ← List.append_assoc]
        exact hsame' hsecond _

end Run.Heeds

/-- A search is determined by the answers to its questions, by induction on the fuel. -/
theorem Replies.explore_heeds (r r' : Replies) (fuel : Nat) (d : Discovery) :
    (r.model.explore fuel d).Heeds r r' (r'.model.explore fuel d) := by
  induction fuel generalizing d with
  | zero =>
      unfold Model.explore
      split
      · exact .pure d
      · exact .out_of_fuel
  | succ fuel ih =>
      unfold Model.explore
      split
      · exact .pure d
      · exact .bind (step_heeds r r' d) ih

end MirAudit
