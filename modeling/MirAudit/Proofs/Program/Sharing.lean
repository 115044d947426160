import MirAudit.Proofs.Program.Histories

/-!
# One object for each instance

An intern table stores an object under what was asked and under what was found, and one may be known
when the other is not. Read `InternTable.Canonical` first: every object of the table is the one that
is stored under its own definition and arguments. As no entry is ever replaced, two requests that
give equal instances give the same object, whatever was asked and registered in between:
`one_object_per_instance`.
-/

namespace MirAudit

namespace InternTable

/-- Every entry of `t` is an entry of `t'`. -/
def Keeps (t t' : InternTable) : Prop :=
  ∀ id args entry, t.get? id args = some entry → t'.get? id args = some entry

/-- What every intern table keeps. -/
structure Canonical (t : InternTable) : Prop where
  /-- An object is also stored under its own definition and arguments. -/
  own : ∀ {id args entry}, t.get? id args = some entry →
    t.get? entry.inst.defId entry.inst.args = some entry
  /-- A ticket belongs to one object. -/
  ticket : ∀ {id args entry id' args' entry'}, t.get? id args = some entry →
    t.get? id' args' = some entry' → entry.ticket = entry'.ticket → entry = entry'
  /-- No ticket of an object is given out again. -/
  given : ∀ {id args entry}, t.get? id args = some entry → entry.ticket < t.nextTicket

variable {t t' : InternTable} {id : DefId} {args : List Ty} {entry : Interned}

theorem Keeps.refl (t : InternTable) : t.Keeps t :=
  fun _ _ _ h => h

theorem Keeps.trans {t'' : InternTable} (h : t.Keeps t') (h' : t'.Keeps t'') : t.Keeps t'' :=
  fun id args entry hentry => h' id args entry (h id args entry hentry)

/-- The table with an object stored under a definition and arguments. -/
def store (t : InternTable) (id : DefId) (args : List Ty) (entry : Interned) : InternTable :=
  { t with entries := t.entries.insert (id, args) entry }

theorem get_store (id' : DefId) (args' : List Ty) :
    (t.store id args entry).get? id' args' =
      if (id', args') = (id, args) then some entry else t.get? id' args' :=
  Table.get?_insert _ _ _ _

theorem get_store_self : (t.store id args entry).get? id args = some entry := by
  rw [get_store, if_pos rfl]

/-- Storing replaces nothing where the place is free or holds the object already. -/
theorem keeps_store (hfree : ∀ other, t.get? id args = some other → other = entry) :
    t.Keeps (t.store id args entry) := by
  intro id' args' other hother
  rw [get_store]
  split
  next heq =>
    cases heq
    rw [hfree other hother]
  next => exact hother

namespace Canonical

theorem empty : ({} : InternTable).Canonical where
  own h := by cases h
  ticket h := by cases h
  given h := by cases h

/-- An object of the table may be stored under a further key. -/
theorem store_known (h : t.Canonical)
    (hknown : t.get? entry.inst.defId entry.inst.args = some entry)
    (hfree : ∀ other, t.get? id args = some other → other = entry) :
    (t.store id args entry).Canonical := by
  -- the objects are those of the table before
  have hbefore : ∀ {id' args' found}, (t.store id args entry).get? id' args' = some found →
      ∃ id'' args'', t.get? id'' args'' = some found := by
    intro id' args' found hfound
    rw [get_store] at hfound
    split at hfound
    next =>
      cases hfound
      exact ⟨_, _, hknown⟩
    next => exact ⟨_, _, hfound⟩
  refine ⟨fun hfound => ?_, fun hfound hother => ?_, fun hfound => ?_⟩
  · obtain ⟨_, _, hfound⟩ := hbefore hfound
    exact keeps_store hfree _ _ _ (h.own hfound)
  · obtain ⟨_, _, hfound⟩ := hbefore hfound
    obtain ⟨_, _, hother⟩ := hbefore hother
    exact h.ticket hfound hother
  · obtain ⟨_, _, hfound⟩ := hbefore hfound
    exact h.given hfound

/-- A new object may be stored under its own definition and arguments. -/
theorem store_fresh (h : t.Canonical) {i : Instance} (hnew : t.get? i.defId i.args = none) :
    ({ t with nextTicket := t.nextTicket + 1 }.store i.defId i.args
      ⟨i, t.nextTicket⟩).Canonical := by
  let fresh : Interned := ⟨i, t.nextTicket⟩
  let ready : InternTable := { t with nextTicket := t.nextTicket + 1 }
  have hfree : ∀ other, ready.get? i.defId i.args = some other → other = fresh := fun other h => by
    have hnone : ready.get? i.defId i.args = none := hnew
    rw [hnone] at h
    cases h
  -- an object is the new one, or it was there before and has an earlier ticket
  have hcases : ∀ {id' args' found}, (ready.store i.defId i.args fresh).get? id' args' = some found →
      found = fresh ∨ t.get? id' args' = some found := by
    intro id' args' found hfound
    rw [get_store] at hfound
    split at hfound
    next =>
      cases hfound
      exact Or.inl rfl
    next => exact Or.inr hfound
  refine ⟨fun hfound => ?_, fun hfound hother hsame => ?_, fun hfound => ?_⟩
  · rcases hcases hfound with rfl | hfound
    · exact get_store_self
    · exact keeps_store hfree _ _ _ (h.own hfound)
  · rcases hcases hfound with rfl | hfound
    · rcases hcases hother with rfl | hother
      · rfl
      · exact absurd hsame.symm (Nat.ne_of_lt (h.given hother))
    · rcases hcases hother with rfl | hother
      · exact absurd hsame (Nat.ne_of_lt (h.given hfound))
      · exact h.ticket hfound hother hsame
  · rcases hcases hfound with rfl | hfound
    · exact Nat.lt_succ_self _
    · exact Nat.lt_succ_of_lt (h.given hfound)

/-- Interning stores an object under what was asked, and replaces nothing. -/
theorem intern (h : t.Canonical) (hasked : t.get? id args = none) (i : Instance) :
    (t.intern id args i).2.Canonical ∧ t.Keeps (t.intern id args i).2 ∧
      (t.intern id args i).2.get? id args = some (t.intern id args i).1 := by
  have hfree : ∀ entry other, t.get? id args = some other → other = entry := fun _ _ hother => by
    rw [hasked] at hother
    cases hother
  unfold InternTable.intern
  cases hfound : t.get? i.defId i.args with
  | some known =>
      have hstored := h.store_known (h.own hfound) (hfree known)
      exact ⟨hstored, keeps_store (hfree known), get_store_self⟩
  | none =>
      let fresh : Interned := ⟨i, t.nextTicket⟩
      let first := { t with nextTicket := t.nextTicket + 1 }.store i.defId i.args fresh
      have hfirst : first.Canonical := h.store_fresh hfound
      have hkeeps : t.Keeps first := keeps_store (t := { t with nextTicket := t.nextTicket + 1 })
        fun other hother => by
          have hnone : t.get? i.defId i.args = some other := hother
          rw [hfound] at hnone
          cases hnone
      -- what was asked may be what was found, and then the place holds the object already
      have hplace : ∀ other, first.get? id args = some other → other = fresh := by
        intro other hother
        rw [get_store] at hother
        split at hother
        next => exact (Option.some.inj hother).symm
        next => exact hfree fresh other hother
      have hlast : (first.store id args fresh).Canonical :=
        hfirst.store_known get_store_self hplace
      exact ⟨hlast, hkeeps.trans (keeps_store hplace), get_store_self (t := first)⟩

end Canonical

end InternTable

/-- A resolution stores the object that it gives under what was asked, and replaces nothing. -/
theorem Program.intern_spec {p : Program} (h : p.interned.Canonical) (fn : DefId)
    (args : List Ty) :
    (p.intern fn args).2.interned.Canonical ∧
      p.interned.Keeps (p.intern fn args).2.interned ∧
      ∀ entry, (p.intern fn args).1 = .ok entry →
        (p.intern fn args).2.interned.get? fn args = some entry := by
  unfold Program.intern
  cases hasked : p.interned.get? fn args with
  | some known =>
      refine ⟨h, .refl _, ?_⟩
      rintro _ ⟨⟩
      exact hasked
  | none =>
      dsimp only
      cases p.environment.resolve fn args with
      | error fault => exact ⟨h, .refl _, nofun⟩
      | ok i =>
          obtain ⟨hcanonical, hkeeps, hstored⟩ := h.intern hasked i
          refine ⟨hcanonical, hkeeps, ?_⟩
          rintro _ ⟨⟩
          exact hstored

/-! ## The objects that calls hand out -/

/-- What calls lead to: a program, and the objects that it has handed out on the way. -/
structure Ledger where
  program : Program
  objects : List Interned := []

namespace Ledger

/-- The ledger of a new program. -/
def start (crateName? : Option String) : Ledger :=
  { program := { crateName? } }

/-- The ledger with one more call. -/
def call (s : Ledger) : Call → Ledger
  | .change c => { s with program := c.apply s.program }
  | .resolve fn args =>
    { program := (s.program.intern fn args).2
      objects := s.objects ++ (s.program.intern fn args).1.toOption.toList }

/-- The ledger with some more calls. -/
def run (s : Ledger) (calls : List Call) : Ledger :=
  calls.foldl call s

/-- The history of the same calls, where objects are told apart by their instances only. -/
def toHistory (s : Ledger) : History :=
  ⟨s.program, s.objects.map Interned.inst⟩

theorem history_call (s : Ledger) (c : Call) : (s.call c).toHistory = s.toHistory.call c := by
  cases c with
  | change c => rfl
  | resolve fn args =>
      have hanswer : (s.program.resolve fn args).1.toOption =
          (s.program.intern fn args).1.toOption.map Interned.inst := by
        unfold Program.resolve
        rcases s.program.intern fn args with ⟨_ | _, _⟩ <;> rfl
      show History.mk (s.program.intern fn args).2 ((s.objects ++ _).map Interned.inst) =
        ⟨(s.program.resolve fn args).2,
          s.objects.map Interned.inst ++ (s.program.resolve fn args).1.toOption.toList⟩
      rw [Program.resolve_snd, hanswer, List.map_append, Option.toList_map]

theorem history_run (s : Ledger) (calls : List Call) :
    (s.run calls).toHistory = s.toHistory.run calls := by
  induction calls generalizing s with
  | nil => rfl
  | cons c calls ih =>
      show ((s.call c).run calls).toHistory = (s.toHistory.call c).run calls
      rw [ih, history_call]

/-- What every ledger keeps: each object that was handed out is stored under its own definition and
arguments. -/
structure Sound (s : Ledger) : Prop where
  canonical : s.program.interned.Canonical
  stored : ∀ a ∈ s.objects, s.program.interned.get? a.inst.defId a.inst.args = some a

variable {s : Ledger}

theorem Sound.start (crateName? : Option String) : (start crateName?).Sound where
  canonical := .empty
  stored _ ha := absurd ha List.not_mem_nil

/-- Every call keeps the ledger sound and all entries of the table. -/
theorem Sound.call (hs : s.Sound) (c : Call) :
    (s.call c).Sound ∧ s.program.interned.Keeps (s.call c).program.interned := by
  cases c with
  | change c =>
      have htable : (s.call (.change c)).program.interned = s.program.interned :=
        s.program.interned_apply c
      exact ⟨⟨htable ▸ hs.canonical, htable ▸ hs.stored⟩, htable ▸ .refl _⟩
  | resolve fn args =>
      obtain ⟨hcanonical, hkeeps, hasked⟩ := Program.intern_spec hs.canonical fn args
      refine ⟨⟨hcanonical, fun a ha => ?_⟩, hkeeps⟩
      rcases List.mem_append.mp ha with ha | ha
      · exact hkeeps _ _ _ (hs.stored a ha)
      · have hanswer : (s.program.intern fn args).1 = .ok a :=
          Outcome.to_option_eq_some.mp (Option.mem_toList.mp ha)
        exact hcanonical.own (hasked a hanswer)

theorem Sound.run (hs : s.Sound) (calls : List Call) :
    (s.run calls).Sound ∧ s.program.interned.Keeps (s.run calls).program.interned := by
  induction calls generalizing s with
  | nil => exact ⟨hs, .refl _⟩
  | cons c calls ih =>
      obtain ⟨hnext, hkeeps⟩ := hs.call c
      obtain ⟨hlast, hmore⟩ := ih hnext
      exact ⟨hlast, hkeeps.trans hmore⟩

end Ledger

/-- Interning keeps one object for each instance. Whatever is called on a new program: two objects
that were handed out are the same, which their tickets tell, exactly if their instances are equal;
an entry of the intern table stays as it is whatever is called behind; and an object that is stored
under some definition and arguments is the one that is stored under its own. -/
theorem one_object_per_instance (crateName? : Option String) (calls more : List Call) :
    let s := (Ledger.start crateName?).run calls
    let later := (Ledger.start crateName?).run (calls ++ more)
    s.toHistory = (History.start crateName?).run calls ∧
      (∀ a ∈ s.objects, ∀ b ∈ s.objects, a.inst = b.inst ↔ a.ticket = b.ticket) ∧
      ∀ id args entry, s.program.interned.get? id args = some entry →
        later.program.interned.get? id args = some entry ∧
          s.program.interned.get? entry.inst.defId entry.inst.args = some entry := by
  intro s later
  obtain ⟨hs, -⟩ := (Ledger.Sound.start crateName?).run calls
  have hlater : later = s.run more := List.foldl_append
  refine ⟨Ledger.history_run _ calls, fun a ha b hb => ⟨fun hinst => ?_, fun hticket => ?_⟩,
    fun id args entry hentry => ⟨?_, hs.canonical.own hentry⟩⟩
  · have hstored := hs.stored a ha
    rw [hinst, hs.stored b hb] at hstored
    rw [Option.some.inj hstored]
  · rw [hs.canonical.ticket (hs.stored a ha) (hs.stored b hb) hticket]
  · rw [hlater]
    exact (hs.run more).2 _ _ _ hentry

/-- Once the method of `Show` is resolved, that of `Log` gives the same object. It stays under all
keys when it is asked for by its own definition later. -/
theorem one_object_per_instance_crossing :
    let i32 := Ty.scalar "i32"
    let showFn : DefId := ⟨"main", "Show::show"⟩
    let object : Interned := ⟨⟨⟨"main", "<i32 as Show>::show"⟩, []⟩, 0⟩
    let calls : List Call := crossing.map .change ++
      [.resolve showFn [i32], .resolve ⟨"main", "Log::log"⟩ [.scalar "bool", i32]]
    let more : List Call := [.resolve object.inst.defId object.inst.args]
    let s := (Ledger.start (some "main")).run calls
    let later := (Ledger.start (some "main")).run (calls ++ more)
    s.objects = [object, object] ∧
      (object.inst = object.inst ↔ object.ticket = object.ticket) ∧
      later.program.interned.get? showFn [i32] = some object ∧
      s.program.interned.get? object.inst.defId object.inst.args = some object := by
  intro i32 showFn object calls more s later
  have hobjects : s.objects = [object, object] := by decide +kernel
  have hasked : s.program.interned.get? showFn [i32] = some object := by decide +kernel
  have hmem : object ∈ s.objects := hobjects ▸ List.mem_cons_self
  obtain ⟨-, hsame, hkept⟩ := one_object_per_instance (some "main") calls more
  exact ⟨hobjects, hsame object hmem object hmem, hkept showFn [i32] object hasked⟩

end MirAudit
