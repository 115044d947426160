import Mathlib.Data.List.Nodup
import MirAudit.Inspection
import MirAudit.Proofs.Body.Types
import MirAudit.Proofs.Check.Checks

/-!
# What an inspection lists

An inspection follows the calls of the entry instance while it walks the body, and lists the types
that it meets and the instances that are called. Where the answers of the model are fixed,
`Oracle.inspection` says what it finds or why it fails, without the loop: `of_body_answers`.
`Inspect.Gives inv a result` says that `a` gives `result` from every state that satisfies `inv`; the
rules follow the parts of an inspection.
-/

namespace MirAudit

/-! ## What is known after a walk -/

/-- What an inspection of a body finds, or why it fails. The calls are followed in walk order, up to
the first that cannot be. The types and the callees are listed where they come first. -/
def Oracle.inspection (o : Oracle) (body : Body) : Except Fault Inspection := do
  let edges ← (body.walk.events.filterMap Event.call?).mapM fun site =>
    o.target body.locals site.func
  match body.walk.stuck with
  | none => return {
      types := (body.walk.events.filterMap Event.ty?).eraseDups
      calls := (edges.filterMap Edge.callee?).eraseDups }
  | some node => throw (.crash (.unknownNode node))

/-- A call is no type. -/
theorem Event.ty_of_call {event : Event} {site : CallSite} (h : event.call? = some site) :
    event.ty? = none := by
  cases event with
  | ty => cases h
  | block | statement | terminator | rvalue | operand | place | localDecl => rfl

namespace Inspection

theorem add_once_erase_dups {α : Type} [DecidableEq α] (a : α) (as : List α) :
    addOnce a as.eraseDups = (as ++ [a]).eraseDups := by
  rw [addOnce, erase_dups_concat]

theorem nodup_erase_dups {α : Type} [DecidableEq α] (as : List α) : as.eraseDups.Nodup := by
  induction as using List.reverseRecOn with
  | nil => exact List.nodup_nil
  | append_singleton as a ih =>
      rw [erase_dups_concat]
      split
      next => exact ih
      next hnew => exact ih.append (List.nodup_singleton a) (List.disjoint_singleton.mpr hnew)

/-- What is known when these types were met and these instances were called, in this order. -/
def ofLists (types : List Ty) (callees : List Instance) : Inspection :=
  ⟨types.eraseDups, callees.eraseDups⟩

theorem types_add_once (types : List Ty) (callees : List Instance) (type : Ty) :
    { ofLists types callees with types := addOnce type (ofLists types callees).types } =
      ofLists (types ++ [type]) callees := by
  simp [ofLists, add_once_erase_dups]

theorem calls_add_once (types : List Ty) (callees : List Instance) (callee : Instance) :
    { ofLists types callees with calls := addOnce callee (ofLists types callees).calls } =
      ofLists types (callees ++ [callee]) := by
  simp [ofLists, add_once_erase_dups]

section Observing

variable {σ : Type} {m : Model σ} {o : Oracle} {inv : σ → Prop}

/-- A call that can be followed adds its callee, if it has one. -/
theorem observe_call_answers (hm : m.AnswersFrom o inv) (locals : List LocalDecl)
    (types : List Ty) (callees : List Instance) {event : Event} {site : CallSite}
    (h : event.call? = some site) :
    (observe m locals (ofLists types callees) event).Answers inv
      ((o.target locals site.func).map fun edge =>
        ofLists types (callees ++ edge.callee?.toList)) := by
  have hsame : (Pure.pure (ofLists types callees) : Query σ Inspection).Answers inv
      (.ok (ofLists types (callees ++ []))) := by
    rw [List.append_nil]
    exact .pure _
  cases event with
  | terminator loc terminator =>
      cases terminator with
      | call func args dest target =>
          obtain rfl := Option.some.inj h
          have htarget := hm.target locals func
          unfold observe
          rcases hedge : o.target locals func with fault | edge <;> rw [hedge] at htarget
          · exact .bind_error htarget
          · refine .bind htarget ?_
            cases edge with
            | direct callee =>
                dsimp only
                rw [calls_add_once]
                exact .pure _
            | indirect | broken => exact hsame
      | goto | «return» | unreachable | switch | drop | assert | unknown => cases h
  | block | statement | rvalue | operand | place | ty | localDecl => cases h

/-- Another event adds its type, if it is one of a type. -/
theorem observe_other_answers (locals : List LocalDecl) (types : List Ty)
    (callees : List Instance) {event : Event} (h : event.call? = none) :
    (observe m locals (ofLists types callees) event).Answers inv
      (.ok (ofLists (types ++ event.ty?.toList) callees)) := by
  have hsame : (Pure.pure (ofLists types callees) : Query σ Inspection).Answers inv
      (.ok (ofLists (types ++ []) callees)) := by
    rw [List.append_nil]
    exact .pure _
  cases event with
  | ty loc type =>
      unfold observe
      dsimp only
      rw [types_add_once]
      exact .pure _
  | terminator loc terminator =>
      cases terminator with
      | call => cases h
      | goto | «return» | unreachable | switch | drop | assert | unknown => exact hsame
  | block | statement | rvalue | operand | place | localDecl => exact hsame

/-- The events of a walk add their types and the callees of their calls, unless a call cannot be
followed. -/
theorem observe_all_answers (hm : m.AnswersFrom o inv) (locals : List LocalDecl)
    (types : List Ty) (callees : List Instance) (events : List Event) :
    (events.foldlM (observe m locals) (ofLists types callees)).Answers inv
      (((events.filterMap Event.call?).mapM fun site => o.target locals site.func).map fun edges =>
        ofLists (types ++ events.filterMap Event.ty?) (callees ++ edges.filterMap Edge.callee?)) := by
  -- what came before is general, because the rest goes on from what the first event adds
  induction events generalizing types callees with
  | nil =>
      show (Pure.pure (ofLists types callees) : Query σ Inspection).Answers inv
        (.ok (ofLists (types ++ []) (callees ++ [])))
      rw [List.append_nil, List.append_nil]
      exact .pure _
  | cons event events ih =>
      rw [List.foldlM_cons]
      cases hcall : event.call? with
      | none =>
          refine .bind (observe_other_answers locals types callees hcall) ?_
          have hrest := ih (types ++ event.ty?.toList) callees
          rwa [List.append_assoc, ← filter_map_cons_eq, ← List.filterMap_cons_none hcall] at hrest
      | some site =>
          have hfirst := observe_call_answers hm locals types callees hcall
          rw [List.filterMap_cons_some hcall, List.mapM_cons]
          rcases hedge : o.target locals site.func with fault | edge <;> rw [hedge] at hfirst
          · exact .bind_error hfirst
          · -- a call is no type, so that only the callees have grown
            refine .bind hfirst ?_
            have hrest := ih types (callees ++ edge.callee?.toList)
            rw [List.filterMap_cons_none (Event.ty_of_call hcall)]
            rcases hedges : (events.filterMap Event.call?).mapM fun site =>
              o.target locals site.func with fault | edges <;> rw [hedges] at hrest ⊢
            · exact hrest
            · show Query.Answers inv _ (.ok (ofLists _ (callees ++ (edge :: edges).filterMap _)))
              rw [filter_map_cons_eq, ← List.append_assoc]
              exact hrest

/-- Each type is listed once, and stands in the body. -/
def Lists (known : Inspection) (body : Body) : Prop :=
  known.types.Nodup ∧ known.types ⊆ body.types

/-- What a walk of a body finds is the same from all the states. -/
theorem of_body_answers (hm : m.AnswersFrom o inv) (body : Body) :
    (ofBody m body).Answers inv (o.inspection body) := by
  have hfold := observe_all_answers hm body.locals [] [] body.walk.events
  unfold ofBody Oracle.inspection
  rcases hedges : (body.walk.events.filterMap Event.call?).mapM fun site =>
    o.target body.locals site.func with fault | edges <;> rw [hedges] at hfold ⊢
  · exact .bind_error hfold
  · refine .bind hfold ?_
    dsimp only
    cases body.walk.stuck with
    | none => exact .pure _
    | some node => exact .throw _

/-- What an inspection finds is listed once, and stands in the body. -/
theorem lists_of_inspection {body : Body} {known : Inspection}
    (h : o.inspection body = .ok known) : known.Lists body := by
  unfold Oracle.inspection at h
  obtain ⟨edges, -, h⟩ := Outcome.bind_eq_ok.mp h
  cases hstuck : body.walk.stuck with
  | some node =>
      rw [hstuck] at h
      cases h
  | none =>
      rw [hstuck] at h
      cases h
      refine ⟨nodup_erase_dups _, fun type htype => ?_⟩
      obtain ⟨event, hevent, hty⟩ := List.mem_filterMap.mp (List.mem_eraseDups.mp htype)
      cases event with
      | ty loc other =>
          obtain rfl := Option.some.inj hty
          exact Body.mem_types_of_walk hevent
      | block | statement | terminator | rvalue | operand | place | localDecl => cases hty

end Observing

end Inspection

/-! ## Outcomes of inspections -/

namespace Inspect

variable {σ α β : Type}

/-- The outcome of an inspection from what was printed and a state, and what it leaves of both. -/
def outcome (a : Inspect σ α) (printed : Printed) (s : σ) : (Except Fault α × Printed) × σ :=
  (a.run.run printed).run s

/-- An inspection goes on from where the one before it stopped, unless that one failed. -/
theorem outcome_bind (a : Inspect σ α) (f : α → Inspect σ β) (printed : Printed) (s : σ) :
    outcome (a >>= f) printed s =
      match a.outcome printed s with
      | ((.ok r, printed), s) => (f r).outcome printed s
      | ((.error fault, printed), s) => ((.error fault, printed), s) := by
  unfold outcome
  simp only [bind, ExceptT.bind, ExceptT.bindCont, ExceptT.mk, ExceptT.run, StateT.bind,
    StateT.run]
  rcases a printed s with ⟨⟨_ | _, _⟩, _⟩ <;> rfl

/-- From every state that satisfies `inv`, the inspection gives `result` and leaves such a state,
whatever was printed. -/
def Gives (inv : σ → Prop) (a : Inspect σ α) (result : Except Fault α) : Prop :=
  ∀ printed s, inv s → (a.outcome printed s).1.1 = result ∧ inv (a.outcome printed s).2

namespace Gives

variable {inv : σ → Prop}

theorem outcome_eq {a : Inspect σ α} {result : Except Fault α} (ha : a.Gives inv result)
    (printed : Printed) {s : σ} (hs : inv s) :
    ∃ after next, a.outcome printed s = ((result, after), next) ∧ inv next := by
  obtain ⟨houtcome, hnext⟩ := ha printed s hs
  exact ⟨_, _, Prod.ext (Prod.ext houtcome rfl) rfl, hnext⟩

theorem pure (a : α) : (Pure.pure a : Inspect σ α).Gives inv (.ok a) :=
  fun _ _ hs => ⟨rfl, hs⟩

theorem throw (fault : Fault) : (throw fault : Inspect σ α).Gives inv (.error fault) :=
  fun _ _ hs => ⟨rfl, hs⟩

theorem of_query {q : Query σ α} {r : Except Fault α} (hq : q.Answers inv r) :
    (ofQuery q).Gives inv r :=
  fun _ s hs => hq s hs

theorem note (line : String) : (Inspect.note line : Inspect σ Unit).Gives inv (.ok ()) :=
  fun _ _ hs => ⟨rfl, hs⟩

theorem print (text : String) : (Inspect.print text : Inspect σ Unit).Gives inv (.ok ()) :=
  fun _ _ hs => ⟨rfl, hs⟩

/-- What follows an inspection that succeeds goes on with what that one gives. -/
theorem bind {a : Inspect σ α} {f : α → Inspect σ β} {x : α} {result : Except Fault β}
    (ha : a.Gives inv (.ok x)) (hf : (f x).Gives inv result) : Gives inv (a >>= f) result := by
  intro printed s hs
  obtain ⟨after, next, hrun, hnext⟩ := ha.outcome_eq printed hs
  rw [outcome_bind, hrun]
  exact hf after next hnext

/-- Nothing follows a failure. -/
theorem bind_error {a : Inspect σ α} {f : α → Inspect σ β} {fault : Fault}
    (ha : a.Gives inv (.error fault)) : Gives inv (a >>= f) (.error fault) := by
  intro printed s hs
  obtain ⟨after, next, hrun, hnext⟩ := ha.outcome_eq printed hs
  rw [outcome_bind, hrun]
  exact ⟨rfl, hnext⟩

/-- Notes on some things one after another. -/
theorem for_m_note (line : α → String) (as : List α) :
    (as.forM fun a => (Inspect.note (line a) : Inspect σ PUnit)).Gives inv (.ok ⟨⟩) := by
  induction as with
  | nil => exact pure PUnit.unit
  | cons a as ih =>
      show (Inspect.note (line a) >>= fun _ => as.forM fun a => Inspect.note (line a)).Gives inv _
      exact bind (note (line a)) ih

end Gives

end Inspect

/-! ## Loaded programs -/

theorem Program.eq_of_item_root {p : Program} {item : Item} {i : Instance}
    (h : p.itemRoot? item = some i) : i = ⟨item.defId, []⟩ := by
  unfold itemRoot? at h
  split at h
  next => exact (Option.some.inj h).symm
  next => cases h

namespace Source.Loaded

variable {l : Loader} {items : List (Spanned ItemTree)} {p : Program}

/-- An inspection of an instance gives what a walk of its body finds. -/
theorem inspect_instance_of_body (hp : Loaded l items p) {i : Instance} {body : Body}
    (hfound : p.bodyOf i = .ok (some body)) {result : Except Fault Inspection}
    (h : (Inspection.ofBody Program.model body).Answers p.InternedFrom result) :
    (Program.model.inspectInstance i).Gives p.InternedFrom result := by
  have hbody : (Program.model.bodyOf i).Answers p.InternedFrom (p.bodyOf i) :=
    (Program.answers_from_oracle hp.coherent).bodyOf i
  rw [hfound] at hbody
  unfold Model.inspectInstance
  refine .bind (.note _) (.bind (.note _) (.bind (.of_query hbody) ?_))
  cases result with
  | error fault => exact .bind_error (.of_query h)
  | ok known =>
      exact .bind (.of_query h) (.bind (.for_m_note _ _) (.bind (.for_m_note _ _)
        (.bind (.print _) (.pure known))))

/-- An instance is inspected if it has a body. -/
theorem inspect_instance_gives (hp : Loaded l items p) (i : Instance) :
    ∃ result, (Program.model.inspectInstance i).Gives p.InternedFrom result ∧
      ∀ known, result = .ok known → ∃ body, p.bodyOf i = .ok (some body) ∧ known.Lists body := by
  have hanswers := Program.answers_from_oracle hp.coherent
  have hbody : (Program.model.bodyOf i).Answers p.InternedFrom (p.bodyOf i) := hanswers.bodyOf i
  rcases hfound : p.bodyOf i with fault | (_ | body)
  · rw [hfound] at hbody
    exact ⟨_, .bind (.note _) (.bind (.note _) (.bind_error (.of_query hbody))), nofun⟩
  · rw [hfound] at hbody
    exact ⟨_, .bind (.note _) (.bind (.note _) (.bind (.of_query hbody) (.throw _))), nofun⟩
  · have hknown := Inspection.of_body_answers hanswers body
    exact ⟨_, hp.inspect_instance_of_body hfound hknown,
      fun known hresult => ⟨body, rfl, Inspection.lists_of_inspection hresult⟩⟩

/-- An inspection first prints the crate and the items, whatever the entry point. -/
theorem inspect_after_items (hp : Loaded l items p) {result : Except Fault Inspection}
    (h : (do
      match ← Inspect.ofQuery Program.model.entryFn with
      | none => throw (.setup "program has no entry point")
      | some entry =>
        match ← Inspect.ofQuery (Program.model.instanceOf entry) with
        | none => throw (.setup ("entry point `" ++ entry.name ++ "` cannot be instantiated"))
        | some i => Program.model.inspectInstance i : Inspect Program Inspection).Gives
      p.InternedFrom result) :
    Program.model.inspect.Gives p.InternedFrom result := by
  obtain ⟨crate, hlocal⟩ : ∃ crate, p.localCrate = .ok crate := by
    rw [Program.localCrate, Program.localCrate?, hp.crateName]
    exact ⟨_, rfl⟩
  have hcrate : Program.model.localCrate.Answers p.InternedFrom (.ok crate) :=
    Program.reads_answer fun _ => hlocal
  exact .bind (.of_query hcrate) (.bind (.note _) (.bind (.of_query hp.local_items_answer)
    (.bind (.for_m_note _ _) h)))

/-- An inspection of a program gives what that of its entry instance gives. -/
theorem inspect_of_entry (hp : Loaded l items p) {entry : Item} (hfound : p.entry = some entry)
    {i : Instance} (hroot : p.itemRoot? entry = some i) {result : Except Fault Inspection}
    (h : (Program.model.inspectInstance i).Gives p.InternedFrom result) :
    Program.model.inspect.Gives p.InternedFrom result := by
  have hentry := entry_answer p
  rw [hfound] at hentry
  have hinstance := Program.instance_of_answers hp.coherent entry
  rw [hp.item_instance entry, hroot] at hinstance
  exact hp.inspect_after_items (.bind (.of_query hentry) (.bind (.of_query hinstance) h))

/-- What an inspection gives is the same whatever was resolved before. If there is no fault, then
the types of the body of the entry point are listed. -/
theorem inspect_gives (hp : Loaded l items p) :
    ∃ result, Program.model.inspect.Gives p.InternedFrom result ∧
      ∀ known, result = .ok known → ∃ entry body, p.entry = some entry ∧
        p.bodyOf ⟨entry.defId, []⟩ = .ok (some body) ∧ known.Lists body := by
  have hentry := entry_answer p
  cases hfound : p.entry with
  | none =>
      rw [hfound] at hentry
      exact ⟨_, hp.inspect_after_items (.bind (.of_query hentry) (.throw _)), nofun⟩
  | some entry =>
      cases hroot : p.itemRoot? entry with
      | none =>
          rw [hfound] at hentry
          have hinstance := Program.instance_of_answers hp.coherent entry
          rw [hp.item_instance entry, hroot] at hinstance
          exact ⟨_, hp.inspect_after_items
            (.bind (.of_query hentry) (.bind (.of_query hinstance) (.throw _))), nofun⟩
      | some i =>
          obtain ⟨result, hgives, hlists⟩ := hp.inspect_instance_gives i
          refine ⟨result, hp.inspect_of_entry hfound hroot hgives, fun known hknown => ?_⟩
          obtain ⟨body, hbody, hlisted⟩ := hlists known hknown
          rw [Program.eq_of_item_root hroot] at hbody
          exact ⟨entry, body, rfl, hbody, hlisted⟩

end Source.Loaded

end MirAudit
