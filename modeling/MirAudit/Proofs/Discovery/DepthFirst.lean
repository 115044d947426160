import MirAudit.Proofs.Discovery.Calls
import MirAudit.Proofs.Outcome

/-!
# The order of a search

A search keeps a stack on which instances may stand several times, also after they were entered.
All the same it enters instances in the order of the recursive search `DepthFirst`, which knows no
stack: it takes the roots in turn and, below an instance, the callees from the last call to the
first, and it goes below an instance only once. Read `depth_first_of_iterate` first: what remains on
the stack is what the recursive search still has to take.
-/

namespace MirAudit.Discovery

/-- The recursive search. When the instances of `seen` were visited before, taking the instances of
`todo` in turn, each with everything below it, visits those of `order`, in this order. -/
inductive DepthFirst (callees : Instance → List Instance) :
    (seen todo order : List Instance) → Prop where
  | done {seen : List Instance} : DepthFirst callees seen [] []
  | skip {seen rest order : List Instance} {i : Instance} (hseen : i ∈ seen)
      (hrest : DepthFirst callees seen rest order) : DepthFirst callees seen (i :: rest) order
  | visit {seen rest below behind : List Instance} {i : Instance} (hnew : i ∉ seen)
      (hbelow : DepthFirst callees (seen ++ [i]) (callees i).reverse below)
      (hbehind : DepthFirst callees (seen ++ i :: below) rest behind) :
      DepthFirst callees seen (i :: rest) (i :: below ++ behind)

namespace DepthFirst

variable {callees : Instance → List Instance} {seen todo order : List Instance}

/-- What is taken after a first part is taken when the first part has been visited. -/
theorem of_append {first second : List Instance}
    (h : DepthFirst callees seen (first ++ second) order) :
    ∃ front back, order = front ++ back ∧ DepthFirst callees seen first front ∧
      DepthFirst callees (seen ++ front) second back := by
  induction first generalizing seen order with
  | nil => exact ⟨[], order, rfl, .done, by simpa using h⟩
  | cons i first ih =>
      cases h with
      | skip hseen hrest =>
          obtain ⟨front, back, rfl, hfront, hback⟩ := ih hrest
          exact ⟨front, back, rfl, .skip hseen hfront, hback⟩
      | @visit _ _ below behind _ hnew hbelow hbehind =>
          obtain ⟨front, back, rfl, hfront, hback⟩ := ih hbehind
          refine ⟨i :: below ++ front, back, by simp, .visit hnew hbelow hfront, ?_⟩
          simpa using hback

/-- Instances that were visited before may be left out. -/
theorem of_filter {keep : Instance → Bool} (hkeep : ∀ i ∈ todo, keep i = false → i ∈ seen)
    (h : DepthFirst callees seen (todo.filter keep) order) :
    DepthFirst callees seen todo order := by
  induction todo generalizing seen order with
  | nil => exact h
  | cons i todo ih =>
      have htail := fun j hj => hkeep j (List.mem_cons_of_mem i hj)
      cases hi : keep i with
      | false =>
          rw [List.filter_cons_of_neg (by simp [hi])] at h
          exact .skip (hkeep i List.mem_cons_self hi) (ih htail h)
      | true =>
          rw [List.filter_cons_of_pos hi] at h
          cases h with
          | skip hseen hrest => exact .skip hseen (ih htail hrest)
          | visit hnew hbelow hbehind =>
              refine .visit hnew hbelow (ih (fun j hj hdrop => ?_) hbehind)
              exact List.mem_append_left _ (htail j hj hdrop)

end DepthFirst

/-! ## Searches -/

variable {edges : Instance → List Edge} {roots : List Instance}

/-- The callees among the edges of an instance, in walk order. -/
def callees (edges : Instance → List Edge) (i : Instance) : List Instance :=
  (edges i).filterMap Edge.callee?

/-- A callee that is not put on the stack was entered before, or is the caller. -/
theorem Faithful.mem_of_dropped {d : Discovery} (hd : d.Faithful edges roots) {i j : Instance}
    (h : decide (j ∉ i :: d.visited) = false) : j ∈ d.instances ++ [i] := by
  have hmem := not_not.mp (of_decide_eq_false h)
  simpa [hd.visited_iff, or_comm] using hmem

/-- What a search enters from some point on is what the recursive search visits when it takes what
is pending at that point. -/
theorem depth_first_of_iterate {n : Nat} {d : Discovery} (hd : d.Faithful edges roots)
    (hend : ((advance edges)^[n] d).pending = []) :
    ∃ order, ((advance edges)^[n] d).instances = d.instances ++ order ∧
      DepthFirst (callees edges) d.instances d.pending order := by
  induction n generalizing d with
  | zero => exact ⟨[], by simp, by rw [show d.pending = [] from hend]; exact .done⟩
  | succ n ih =>
      obtain ⟨order, horder, hrest⟩ := ih hd.advance hend
      rw [Function.iterate_succ_apply, horder]
      rcases hpending : d.pending with _ | ⟨i, rest⟩
      · rw [advance_of_done hpending] at hrest ⊢
        exact ⟨order, rfl, hpending ▸ hrest⟩
      · by_cases hi : i ∈ d.visited
        · rw [advance_of_visited hpending hi] at hrest ⊢
          exact ⟨order, rfl, .skip ((hd.visited_iff i).mp hi) hrest⟩
        · rw [advance_of_fresh hpending hi] at hrest ⊢
          rw [pending_enter] at hrest
          obtain ⟨below, behind, rfl, hbelow, hbehind⟩ := hrest.of_append
          have hall := hbelow.of_filter fun j _ hj => hd.mem_of_dropped hj
          refine ⟨i :: below ++ behind, by simp, .visit ?_ hall ?_⟩
          · rwa [← hd.visited_iff]
          · simpa using hbehind

/-- The search visits what the recursive search visits, and leaves the rest of the stack. Callees
that were visited before may be missing on the stack. -/
theorem exists_iterate_of_depth_first {seen todo order : List Instance}
    (h : DepthFirst (callees edges) seen todo order) (keep : Instance → Bool)
    (rest : List Instance) {d : Discovery} (hd : d.Faithful edges roots) (hseen : d.instances = seen)
    (hpending : d.pending = todo.filter keep ++ rest)
    (hkeep : ∀ i ∈ todo, keep i = false → i ∈ seen) :
    ∃ n, ((advance edges)^[n] d).pending = rest ∧
      ((advance edges)^[n] d).instances = seen ++ order := by
  induction h generalizing d rest keep with
  | done => exact ⟨0, hpending, by simpa using hseen⟩
  | @skip seen todo order i hi _ ih =>
      have htail := fun j hj => hkeep j (List.mem_cons_of_mem i hj)
      cases hi' : keep i with
      | false =>
          rw [List.filter_cons_of_neg (by simp [hi'])] at hpending
          exact ih keep rest hd hseen hpending htail
      | true =>
          rw [List.filter_cons_of_pos hi', List.cons_append] at hpending
          have hvisited : i ∈ d.visited := (hd.visited_iff i).mpr (hseen ▸ hi)
          have hstep : d.advance edges = _ := advance_of_visited hpending hvisited
          obtain ⟨n, hn⟩ :=
            ih keep rest hd.advance (by rw [hstep]; exact hseen) (by rw [hstep]) htail
          exact ⟨n + 1, hn⟩
  | @visit seen todo below behind i hi _ _ ihBelow ihBehind =>
      have hi' : keep i = true := by
        by_contra hdrop
        exact hi (hkeep i List.mem_cons_self (by simpa using hdrop))
      rw [List.filter_cons_of_pos hi', List.cons_append] at hpending
      have hfresh : i ∉ d.visited := fun hmem => hi (hseen ▸ (hd.visited_iff i).mp hmem)
      have hstep : d.advance edges = _ := advance_of_fresh hpending hfresh
      -- first everything below the instance, then what was pending behind it
      obtain ⟨n, hrest, horder⟩ := ihBelow (fun j => j ∉ i :: d.visited) _ hd.advance
        (by rw [hstep, instances_enter, hseen]) (by rw [hstep, pending_enter]; rfl)
        fun j _ hj => hseen ▸ hd.mem_of_dropped hj
      obtain ⟨k, hk⟩ := ihBehind keep rest (hd.advance.iterate n) (by rw [horder]; simp) hrest
        fun j hj hdrop => List.mem_append_left _ (hkeep j (List.mem_cons_of_mem i hj) hdrop)
      refine ⟨k + (n + 1), ?_⟩
      rw [Function.iterate_add_apply, Function.iterate_succ_apply]
      simpa using hk

/-- A search from some roots ends exactly if the recursive search does, and in its order. -/
theorem depth_first_iff_search {order : List Instance} :
    DepthFirst (callees edges) [] roots order ↔
      ∃ fuel last, (start roots).search edges fuel = some last ∧ last.instances = order := by
  constructor
  · intro h
    obtain ⟨n, hdone, horder⟩ := exists_iterate_of_depth_first h (fun _ => true) []
      (.start edges roots) rfl (by simp [start]) (by simp)
    exact ⟨n, _, search_of_iterate hdone, horder⟩
  · intro h
    obtain ⟨fuel, last, hsearch, rfl⟩ := h
    obtain ⟨n, rfl, hdone⟩ := exists_iterate_of_search hsearch
    obtain ⟨order, horder, hfirst⟩ := depth_first_of_iterate (.start edges roots) hdone
    rw [horder]
    exact hfirst

end MirAudit.Discovery

namespace MirAudit

open Discovery

variable {σ : Type} {m : Model σ} {o : Oracle} {inv : σ → Prop}

/-- A search of a model with fixed answers ends exactly if the recursive search does. When it ends,
it has entered what the recursive search visits and in the same order: the roots from first to last,
and below each instance its callees from the last call of the body to the first. -/
theorem discover_depth_first (hm : m.AnswersFrom o inv) (ho : o.NeverFatal)
    (roots : List Instance) {s : σ} (hs : inv s) :
    ((∃ fuel d next, (m.discover fuel roots).outcome s = (.ok d, next)) ↔
      ∃ order, DepthFirst o.callees [] roots order) ∧
    ∀ fuel d next, (m.discover fuel roots).outcome s = (.ok d, next) →
      ∀ order, DepthFirst o.callees [] roots order ↔ order = d.instances := by
  have hcallees : o.callees = callees o.edges := funext fun i => Oracle.callees_eq.symm
  have hends : ∀ {fuel d}, (start roots).search o.edges fuel = some d →
      ∃ next, (m.discover fuel roots).outcome s = (.ok d, next) := by
    intro fuel d hd
    obtain ⟨next, -, houtcome⟩ := hm.explore ho fuel (start roots) hs
    rw [hd] at houtcome
    exact ⟨next, houtcome⟩
  simp only [hcallees, depth_first_iff_search]
  refine ⟨⟨?_, ?_⟩, fun fuel d next h order => ⟨?_, ?_⟩⟩
  · intro h
    obtain ⟨fuel, d, next, h⟩ := h
    exact ⟨d.instances, fuel, d, hm.search_of_explore hs h, rfl⟩
  · intro h
    obtain ⟨order, fuel, d, hd, -⟩ := h
    exact ⟨fuel, d, hends hd⟩
  · intro hfirst
    obtain ⟨fuel', last, hlast, rfl⟩ := hfirst
    obtain ⟨next', h'⟩ := hends hlast
    rw [Model.explore_unique (congrArg Prod.fst h') (congrArg Prod.fst h)]
  · rintro rfl
    exact ⟨fuel, d, hm.search_of_explore hs h, rfl⟩

/-- The recursive search through four functions that call each other, themselves and one of them
twice. -/
theorem discover_depth_first_tournament :
    ∃ fuel d next,
      (Oracle.tournament.model.discover fuel [.inGame "serve", .inGame "rally"]).outcome () =
        (.ok d, next) ∧
      d.instances = [.inGame "serve", .inGame "return", .inGame "score", .inGame "rally"] ∧
      ∀ order, DepthFirst Oracle.tournament.callees [] [.inGame "serve", .inGame "rally"] order ↔
        order = d.instances := by
  have hrun : ((Oracle.tournament.model.discover 10
      [.inGame "serve", .inGame "rally"]).outcome ()).1.toOption.any (fun d =>
        d.instances = [.inGame "serve", .inGame "return", .inGame "score", .inGame "rally"]) =
      true := by
    decide +kernel
  obtain ⟨d, hd, horder⟩ := Outcome.exists_of_any hrun
  have hends : (Oracle.tournament.model.discover 10
      [.inGame "serve", .inGame "rally"]).outcome () = (.ok d, ()) := Prod.ext hd rfl
  exact ⟨10, d, (), hends, of_decide_eq_true horder,
    (discover_depth_first Oracle.tournament.answers_from_model Oracle.tournament_never_fatal _
      trivial).2 10 d () hends⟩

end MirAudit
