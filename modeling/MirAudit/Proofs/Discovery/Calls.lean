import MirAudit.Proofs.Discovery.Closure

/-!
# What becomes of a call

A call of a body that can be read and walked comes to exactly one thing: it leads to an instance, it
is indirect, or it is a finding. `Oracle.fate` says which from the type of the operand and the answer
of resolution, and `Oracle.outgoing` lists the calls of an instance with their fates. The edges of an
instance are these calls, or a single finding about its body: `edges_eq_outgoing`.
-/

namespace MirAudit

namespace Edge

/-- The finding of an edge attributed to a block of the caller. -/
def located (caller : Instance) (block : BlockNumber) : Edge → Edge
  | .broken finding => .broken (finding.located caller.name (some block))
  | edge => edge

/-- The finding about a call that ends a block of the caller. -/
def finding? (caller : Instance) (call : Nat × Edge) : Option CheckFault :=
  call.2.fault?.map fun finding => finding.located caller.name (some call.1)

@[simp] theorem callee_located (caller : Instance) (block : BlockNumber) (edge : Edge) :
    (edge.located caller block).callee? = edge.callee? := by
  cases edge <;> rfl

@[simp] theorem is_indirect_located (caller : Instance) (block : BlockNumber) (edge : Edge) :
    (edge.located caller block).isIndirect = edge.isIndirect := by
  cases edge <;> rfl

@[simp] theorem fault_located (caller : Instance) (call : Nat × Edge) :
    (call.2.located caller call.1).fault? = finding? caller call := by
  obtain ⟨block, edge⟩ := call
  cases edge <;> rfl

/-- An edge is a callee, an indirect call or a finding, and only one of these. -/
theorem length_eq (edges : List Edge) :
    edges.length =
      (edges.filterMap callee?).length + edges.countP isIndirect + (edges.filterMap fault?).length := by
  induction edges with
  | nil => rfl
  | cons edge edges ih =>
      simp only [List.filterMap_cons, List.countP_cons, List.length_cons, ih]
      cases edge with
      | direct callee | indirect =>
          simp [callee?, isIndirect, fault?]
          omega
      | broken fault => simp [callee?, isIndirect, fault?, Nat.add_assoc]

/-- The findings about calls all have a block. -/
theorem count_findings (caller : Instance) (calls : List (Nat × Edge)) :
    (calls.filterMap (finding? caller)).countP (fun finding => finding.block.isSome) =
      ((calls.map Prod.snd).filterMap fault?).length := by
  have hblock : ∀ finding ∈ calls.filterMap (finding? caller), finding.block.isSome = true := by
    intro finding h
    obtain ⟨call, -, h⟩ := List.mem_filterMap.mp h
    obtain ⟨plain, -, rfl⟩ := Option.map_eq_some_iff.mp h
    rfl
  rw [List.countP_eq_length.mpr hblock, List.filterMap_map, List.length_filterMap_eq_countP,
    List.length_filterMap_eq_countP]
  simp [finding?]

end Edge

namespace Oracle

variable (o : Oracle)

/-- What becomes of a call of `func`. A function item is followed if it is resolved, a function
pointer is called indirectly, and an operand of another type or of none cannot be called. -/
def fate (locals : List LocalDecl) (func : Operand) : Edge :=
  match func.ty locals with
  | .ok (.fnDef fn tys) =>
    match o.resolve fn tys with
    | .ok callee => .direct callee
    | .error fault => .broken fault.finding
  | .ok (.fnPtr _ _) => .indirect
  | .ok ty => .broken (unexpectedCallee ty)
  | .error crash => .broken (Fault.crash crash).finding

/-- Why the body of an instance cannot be read or walked, if it cannot. -/
def obstacle (i : Instance) : Option CheckFault :=
  match o.bodyOf i with
  | .error fault => some fault.finding
  | .ok none => none
  | .ok (some body) => body.walk.stuck.map fun node => (Fault.crash (.unknownNode node)).finding

/-- The calls of an instance in block order, each with the number of the block that it ends and with
what becomes of it. A body that cannot be read or walked has none. -/
def outgoing (i : Instance) : List (Nat × Edge) :=
  match o.bodyOf i with
  | .ok (some body) =>
    match body.walk.stuck with
    | none => body.callSites.map fun site => (site.block, o.fate body.locals site.func)
    | some _ => []
  | _ => []

/-- The instances that the calls of an instance lead to, in block order. -/
def callees (i : Instance) : List Instance :=
  (o.outgoing i).filterMap fun call => call.2.callee?

/-- How many calls of an instance go through a function pointer. -/
def indirectCalls (i : Instance) : Nat :=
  (o.outgoing i).countP fun call => call.2.isIndirect

/-- The findings about an instance: one without a block if its body cannot be read or walked, and
otherwise one for each call that cannot be followed, in block order. -/
def findings (i : Instance) : List CheckFault :=
  match o.obstacle i with
  | some finding => [finding.located i.name none]
  | none => (o.outgoing i).filterMap (Edge.finding? i)

variable {o} {i : Instance}

theorem follow_eq_fate (caller : Instance) (locals : List LocalDecl) (site : CallSite) :
    o.follow caller locals site = (o.fate locals site.func).located caller site.block := by
  unfold follow target fate Operand.callee
  rcases site.func.ty locals with crash | ty
  · rfl
  · cases ty with
    | fnDef fn tys =>
        dsimp only [Callee.ofTy]
        cases o.resolve fn tys <;> rfl
    | scalar | adt | ref | tuple | param | fnPtr => rfl

/-- The edges of an instance are its calls, unless its body is an obstacle. -/
theorem edges_eq_outgoing :
    o.edges i =
      match o.obstacle i with
      | some finding => [.broken (finding.located i.name none)]
      | none => (o.outgoing i).map fun call => call.2.located i call.1 := by
  unfold edges callSites obstacle outgoing
  rcases o.bodyOf i with fault | (_ | body)
  · rfl
  · rfl
  · dsimp only
    rcases hwalk : body.walk.stuck with _ | node
    · rw [Body.calls_eq hwalk]
      simp [follow_eq_fate]
    · rw [Body.calls_stuck hwalk]
      rfl

/-- The calls of an instance are the blocks of its body that end in a call, with their fates. -/
theorem mem_outgoing {body : Body} (hbody : o.bodyOf i = .ok (some body))
    (hwalk : body.walk.stuck = none) {index : Nat} {edge : Edge} :
    (index, edge) ∈ o.outgoing i ↔
      ∃ block func args dest target, body.blocks[index]? = some block ∧
        block.terminator = .call func args dest target ∧ o.fate body.locals func = edge := by
  simp only [outgoing, hbody, hwalk, List.mem_map, Prod.mk.injEq]
  constructor
  · intro h
    obtain ⟨site, hsite, rfl, rfl⟩ := h
    obtain ⟨block, hblock, args, dest, target, hcall⟩ := Body.mem_callSites.mp hsite
    exact ⟨block, site.func, args, dest, target, hblock, hcall, rfl⟩
  · intro h
    obtain ⟨block, func, args, dest, target, hblock, hcall, rfl⟩ := h
    exact ⟨⟨index, func⟩, Body.mem_callSites.mpr ⟨block, hblock, args, dest, target, hcall⟩,
      rfl, rfl⟩

/-- A body that can be read and walked is no obstacle. -/
theorem obstacle_of_walk {body : Body} (hbody : o.bodyOf i = .ok (some body))
    (hwalk : body.walk.stuck = none) : o.obstacle i = none := by
  simp [obstacle, hbody, hwalk]

/-- Nothing is known of the calls of a body that is an obstacle. -/
theorem outgoing_of_obstacle {finding : CheckFault} (h : o.obstacle i = some finding) :
    o.outgoing i = [] := by
  unfold obstacle at h
  unfold outgoing
  rcases hbody : o.bodyOf i with fault | (_ | body) <;> simp only [hbody] at h ⊢
  cases hwalk : body.walk.stuck with
  | none => simp [hwalk] at h
  | some node => rfl

theorem callees_eq : (o.edges i).filterMap Edge.callee? = o.callees i := by
  rw [edges_eq_outgoing, callees]
  cases h : o.obstacle i with
  | none => simp [List.filterMap_map]
  | some finding => simp [outgoing_of_obstacle h, Edge.callee?]

theorem indirect_calls_eq : (o.edges i).countP Edge.isIndirect = o.indirectCalls i := by
  rw [edges_eq_outgoing, indirectCalls]
  cases h : o.obstacle i with
  | none => simp [List.countP_map, Function.comp_def]
  | some finding => simp [outgoing_of_obstacle h, Edge.isIndirect]

theorem findings_eq : (o.edges i).filterMap Edge.fault? = o.findings i := by
  rw [edges_eq_outgoing, findings]
  cases h : o.obstacle i with
  | none => simp [List.filterMap_map]
  | some finding => simp [Edge.fault?]

/-- Every call of an instance is followed, counted as indirect, or one finding with a block. -/
theorem length_outgoing (i : Instance) :
    (o.outgoing i).length =
      (o.callees i).length + o.indirectCalls i +
        (o.findings i).countP fun finding => finding.block.isSome := by
  cases h : o.obstacle i with
  | none =>
      have hsplit := Edge.length_eq ((o.outgoing i).map Prod.snd)
      rw [← Edge.count_findings i, List.length_map, List.filterMap_map, List.countP_map] at hsplit
      rw [findings, h]
      exact hsplit
  | some finding =>
      simp [callees, indirectCalls, findings, h, outgoing_of_obstacle h, CheckFault.located]

/-- Four functions that call each other, with every kind of fate: one calls through a function
pointer, one calls what cannot be resolved, one calls a slot that holds no function, and one cannot
be walked. -/
def tournament : Oracle where
  bodyOf i :=
    if i = .inGame "serve" then
      .ok (some (.callChain [.inGame "return", .inGame "rally", .copy 1, .inGame "return"]
        [.fnPtr [] .unit]))
    else if i = .inGame "return" then
      .ok (some (.callChain [.inGame "serve", .inGame "score", .inGame "umpire"] []))
    else if i = .inGame "rally" then
      .ok (some (.callChain [.inGame "score", .copy 0, .inGame "rally"] []))
    else if i = .inGame "score" then .ok (some { blocks := [⟨[.unknown "Bogus"], .return⟩] })
    else .error (.crash .outOfRange)
  resolve fn args :=
    if fn = ⟨"game", "umpire"⟩ then .error (ResolutionFault.unknownFn fn).toFault
    else .ok ⟨fn, args⟩

theorem tournament_never_fatal : tournament.NeverFatal where
  bodyOf i message := by
    simp only [tournament]
    split_ifs <;> simp
  resolve fn args message := by
    simp only [tournament]
    split_ifs <;> simp [ResolutionFault.toFault]

end Oracle

end MirAudit
