import MirAudit.Proofs.Outcome
import MirAudit.Source.Load

/-!
# Steps of loading

A step of loading succeeds exactly if each of its parts does, one from where the other left the
program. Read `run_bind_eq_ok` first.
-/

namespace MirAudit.Source

variable {α β : Type}

namespace LoadStep

theorem run_pure_eq_ok {a b : α} {p q : Program} :
    (pure a : LoadStep α).run p = .ok (b, q) ↔ a = b ∧ p = q := by
  show Except.ok (a, p) = Except.ok (b, q) ↔ a = b ∧ p = q
  rw [Except.ok.injEq, Prod.mk.injEq]

/-- A step goes on from the program that the step before it left. -/
theorem run_bind_eq_ok {x : LoadStep α} {f : α → LoadStep β} {b : β} {p r : Program} :
    (x >>= f).run p = .ok (b, r) ↔
      ∃ a q, x.run p = .ok (a, q) ∧ (f a).run q = .ok (b, r) := by
  show (x.run p >>= fun aq => (f aq.1).run aq.2) = .ok (b, r) ↔ _
  rw [Outcome.bind_eq_ok, Prod.exists]

/-- A step fails exactly if its first part does, or what goes on from it. -/
theorem run_bind_eq_error {x : LoadStep α} {f : α → LoadStep β} {p : Program} {fault : LoadError} :
    (x >>= f).run p = .error fault ↔
      x.run p = .error fault ∨ ∃ a q, x.run p = .ok (a, q) ∧ (f a).run q = .error fault := by
  show (x.run p >>= fun aq => (f aq.1).run aq.2) = .error fault ↔ _
  rw [Outcome.bind_eq_error, Prod.exists]

/-- Steps one after another fail at the first one that fails behind those that succeed. -/
theorem first_of_run_for_m {f : α → LoadStep Unit} {as : List α} {p : Program} {fault : LoadError}
    (h : (as.forM f).run p = .error fault) :
    ∃ front a back q, as = front ++ a :: back ∧ (front.forM f).run p = .ok ((), q) ∧
      (f a).run q = .error fault := by
  induction as generalizing p with
  | nil => cases h
  | cons a as ih =>
      rcases run_bind_eq_error.mp h with hfirst | ⟨⟨⟩, middle, hfirst, hrest⟩
      · exact ⟨[], a, as, p, rfl, rfl, hfirst⟩
      · obtain ⟨front, b, back, q, rfl, hfront, hb⟩ := ih hrest
        exact ⟨a :: front, b, back, q, rfl, run_bind_eq_ok.mpr ⟨(), middle, hfirst, hfront⟩, hb⟩

/-- What only gives a value leaves the program as it is. -/
theorem run_lift_eq_ok {x : Load α} {a : α} {p q : Program} :
    (liftM x : LoadStep α).run p = .ok (a, q) ↔ x = .ok a ∧ p = q := by
  show (x >>= fun a => pure (a, p)) = .ok (a, q) ↔ _
  rw [Outcome.bind_eq_ok]
  constructor
  · intro h
    obtain ⟨b, hb, h⟩ := h
    cases Outcome.pure_eq_ok.mp h
    exact ⟨hb, rfl⟩
  · intro h
    obtain ⟨ha, rfl⟩ := h
    exact ⟨a, ha, rfl⟩

theorem run_map_eq_ok {x : LoadStep α} {f : α → β} {b : β} {p q : Program} :
    (f <$> x).run p = .ok (b, q) ↔ ∃ a, x.run p = .ok (a, q) ∧ f a = b := by
  rw [map_eq_pure_bind, run_bind_eq_ok]
  simp only [run_pure_eq_ok]
  constructor
  · intro h
    obtain ⟨a, _, hx, hb, rfl⟩ := h
    exact ⟨a, hx, hb⟩
  · intro h
    obtain ⟨a, hx, hb⟩ := h
    exact ⟨a, q, hx, hb, rfl⟩

theorem run_modify_eq_ok {f : Program → Program} {u : Unit} {p q : Program} :
    (modify f : LoadStep Unit).run p = .ok (u, q) ↔ f p = q := by
  show Except.ok ((), f p) = Except.ok (u, q) ↔ _
  rw [Except.ok.injEq, Prod.mk.injEq]
  exact and_iff_right rfl

/-- A registration that succeeds leaves what it registered. -/
theorem run_register_eq_ok {region : Region}
    {add : Program → Except RegistrationFault Unit × Program} {u : Unit} {p q : Program} :
    (register region add).run p = .ok (u, q) ↔ add p = (.ok (), q) := by
  unfold register
  rw [run_bind_eq_ok]
  constructor
  · intro h
    obtain ⟨_, _, hget, h⟩ := h
    cases hget
    rcases hadd : add p with ⟨fault | ⟨⟩, r⟩ <;> simp only [hadd] at h
    · cases h
    · cases h
      rfl
  · intro hadd
    refine ⟨p, p, rfl, ?_⟩
    simp only [hadd]
    rfl

/-- What cannot be registered is a fault about the region it is registered for. -/
theorem run_register_eq_error {region : Region}
    {add : Program → Except RegistrationFault Unit × Program} {p : Program} {fault : LoadError}
    (h : (register region add).run p = .error fault) :
    ∃ reason, fault = (LoadFault.registration reason).within region := by
  unfold register at h
  obtain h | ⟨_, _, hget, h⟩ := run_bind_eq_error.mp h
  · cases h
  · cases hget
    rcases hadd : add p with ⟨reason | ⟨⟩, r⟩ <;> simp only [hadd] at h
    · exact ⟨reason, (Except.error.inj h).symm⟩
    · cases h

end LoadStep

end MirAudit.Source
