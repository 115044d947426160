import Mathlib.Data.List.Perm.Basic

/-!
# Outcomes

A computation that may fail succeeds exactly if each of its parts does. Read `bind_eq_ok` first. A
test of what a computation makes of a text is evaluated with `test_of_chars`.
-/

namespace MirAudit.Outcome

variable {ε α β : Type}

/-- What only gives a value gives that value. -/
theorem pure_eq_ok {a b : α} : (pure a : Except ε α) = .ok b ↔ a = b := by
  show Except.ok a = Except.ok b ↔ a = b
  rw [Except.ok.injEq]

/-- What only fails gives no value. -/
theorem not_throw_eq_ok {fault : ε} {a : α} : (throw fault : Except ε α) ≠ .ok a := by
  intro h
  cases h

/-- A computation succeeds exactly if its first part does, and then what follows it. -/
theorem bind_eq_ok {x : Except ε α} {f : α → Except ε β} {b : β} :
    (x >>= f) = .ok b ↔ ∃ a, x = .ok a ∧ f a = .ok b := by
  cases x with
  | error fault =>
      constructor
      · intro h
        cases h
      · intro h
        obtain ⟨a, h, _⟩ := h
        cases h
  | ok a =>
      constructor
      · exact fun h => ⟨a, rfl, h⟩
      · intro h
        obtain ⟨_, ⟨⟩, h⟩ := h
        exact h

/-- A check succeeds in front of what follows it. -/
theorem check_bind_eq_ok {x : Except ε Unit} {f : Unit → Except ε β} {b : β} :
    (x >>= f) = .ok b ↔ x = .ok () ∧ f () = .ok b := by
  rw [bind_eq_ok]
  constructor
  · intro h
    obtain ⟨⟨⟩, hx, hf⟩ := h
    exact ⟨hx, hf⟩
  · intro h
    exact ⟨(), h.1, h.2⟩

/-- A computation fails exactly if its first part or what follows it does. -/
theorem bind_eq_error {x : Except ε α} {f : α → Except ε β} {fault : ε} :
    (x >>= f) = .error fault ↔ x = .error fault ∨ ∃ a, x = .ok a ∧ f a = .error fault := by
  cases x with
  | error other =>
      show Except.error other = Except.error fault ↔ _
      simp
  | ok a =>
      show f a = Except.error fault ↔ _
      simp

/-- What follows a check fails exactly if the check or what follows it does. -/
theorem check_bind_eq_error {x : Except ε Unit} {f : Unit → Except ε β} {fault : ε} :
    (x >>= f) = .error fault ↔ x = .error fault ∨ x = .ok () ∧ f () = .error fault := by
  rw [bind_eq_error]
  constructor
  · rintro (h | ⟨⟨⟩, hx, hf⟩)
    · exact Or.inl h
    · exact Or.inr ⟨hx, hf⟩
  · rintro (h | ⟨hx, hf⟩)
    · exact Or.inl h
    · exact Or.inr ⟨(), hx, hf⟩

/-- A function of what a computation gives is given exactly if the computation succeeds. -/
theorem map_eq_ok {x : Except ε α} {f : α → β} {b : β} :
    f <$> x = .ok b ↔ ∃ a, x = .ok a ∧ f a = b := by
  rw [map_eq_pure_bind, bind_eq_ok]
  simp only [pure_eq_ok]

/-- Renaming the faults of a computation does not change what it gives. -/
theorem map_error_eq_ok {ε' : Type} {x : Except ε α} {f : ε → ε'} {a : α} :
    x.mapError f = .ok a ↔ x = .ok a := by
  cases x <;> simp [Except.mapError]

/-- A fault is the new name of a fault of the computation. -/
theorem map_error_eq_error {ε' : Type} {x : Except ε α} {f : ε → ε'} {fault : ε'} :
    x.mapError f = .error fault ↔ ∃ cause, x = .error cause ∧ f cause = fault := by
  cases x <;> simp [Except.mapError]

/-- The result of a computation, as an option. -/
theorem to_option_eq_some {x : Except ε α} {a : α} : x.toOption = some a ↔ x = .ok a := by
  cases x <;> simp [Except.toOption]

/-- A computation whose result passes a test succeeds. -/
theorem exists_of_any {x : Except ε α} {test : α → Bool} (h : x.toOption.any test = true) :
    ∃ a, x = .ok a ∧ test a = true := by
  cases x with
  | error fault => cases h
  | ok a => exact ⟨a, rfl, h⟩

/-- A computation without a result fails. -/
theorem exists_of_is_none {x : Except ε α} (h : x.toOption.isNone = true) :
    ∃ fault, x = .error fault := by
  cases x with
  | error fault => exact ⟨fault, rfl⟩
  | ok a => cases h

/-- A test of a text that is written as a string may be evaluated on its characters. -/
theorem test_of_chars {f : List Char → Bool} {cs : List Char} (h : f cs = true) :
    f (String.ofList cs).toList = true := by
  rwa [String.toList_ofList]

/-- A list is built if each element is. -/
theorem map_m_eq_ok {f : α → Except ε β} {as : List α} {bs : List β} :
    as.mapM f = .ok bs ↔ List.Forall₂ (fun a b => f a = .ok b) as bs := by
  induction as generalizing bs with
  | nil =>
      rw [List.mapM_nil, pure_eq_ok, List.forall₂_nil_left_iff]
      exact eq_comm
  | cons a as ih =>
      simp only [List.mapM_cons, bind_eq_ok, pure_eq_ok, ih]
      constructor
      · intro h
        obtain ⟨b, hb, bs, hbs, rfl⟩ := h
        exact .cons hb hbs
      · intro h
        obtain _ | ⟨hb, hbs⟩ := h
        exact ⟨_, hb, _, hbs, rfl⟩

/-- Two lists give the same if their elements do, one after another. -/
theorem map_m_congr {γ : Type} {f : α → Except ε β} {g : γ → Except ε β} {k : α → γ} {as : List α}
    {bs : List β} (h : ∀ a ∈ as, ∀ b, g (k a) = .ok b ↔ f a = .ok b) :
    (as.map k).mapM g = .ok bs ↔ as.mapM f = .ok bs := by
  rw [map_m_eq_ok, map_m_eq_ok, List.forall₂_map_left_iff]
  induction as generalizing bs with
  | nil => rw [List.forall₂_nil_left_iff, List.forall₂_nil_left_iff]
  | cons a as ih =>
      simp only [List.forall₂_cons_left_iff, h a List.mem_cons_self,
        ih fun other hother => h other (List.mem_cons_of_mem a hother)]

/-- A list in another order gives the same in another order. -/
theorem map_m_perm {f : α → Except ε β} {as as' : List α} {bs : List β} (hperm : as.Perm as')
    (h : as.mapM f = .ok bs) : ∃ bs', as'.mapM f = .ok bs' ∧ bs.Perm bs' := by
  simp only [map_m_eq_ok] at h ⊢
  obtain ⟨bs', hall, hbs⟩ := List.perm_comp_forall₂ hperm.symm h
  exact ⟨bs', hall, hbs.symm⟩

/-- Some elements of a list give some of what the list gives. -/
theorem map_m_sublist {f : α → Except ε β} {as as' : List α} {bs : List β}
    (hsub : as'.Sublist as) (h : as.mapM f = .ok bs) :
    ∃ bs', as'.mapM f = .ok bs' ∧ bs'.Sublist bs := by
  simp only [map_m_eq_ok] at h ⊢
  induction hsub generalizing bs with
  | slnil => exact ⟨[], .nil, List.nil_sublist bs⟩
  | cons a _ ih =>
      obtain ⟨b, rest, -, hrest, rfl⟩ := List.forall₂_cons_left_iff.mp h
      obtain ⟨bs', hall, hbs⟩ := ih hrest
      exact ⟨bs', hall, hbs.cons b⟩
  | cons_cons a _ ih =>
      obtain ⟨b, rest, hhead, hrest, rfl⟩ := List.forall₂_cons_left_iff.mp h
      obtain ⟨bs', hall, hbs⟩ := ih hrest
      exact ⟨b :: bs', .cons hhead hall, hbs.cons_cons b⟩

/-- Lists one after another give what each of them gives. -/
theorem map_m_append_eq_ok {f : α → Except ε β} {as as' : List α} {bs : List β} :
    (as ++ as').mapM f = .ok bs ↔
      ∃ front back, as.mapM f = .ok front ∧ as'.mapM f = .ok back ∧ bs = front ++ back := by
  simp only [List.mapM_append, bind_eq_ok, pure_eq_ok]
  constructor
  · intro h
    obtain ⟨front, hfront, back, hback, rfl⟩ := h
    exact ⟨front, back, hfront, hback, rfl⟩
  · intro h
    obtain ⟨front, back, hfront, hback, rfl⟩ := h
    exact ⟨front, hfront, back, hback, rfl⟩

/-- Every element of a list that was built comes from an element of the list before. -/
theorem of_mem_map_m {f : α → Except ε β} {as : List α} {bs : List β} {b : β}
    (h : as.mapM f = .ok bs) (hb : b ∈ bs) : ∃ a ∈ as, f a = .ok b := by
  have hall := map_m_eq_ok.mp h
  clear h
  induction hall with
  | nil => simp at hb
  | cons hhead _ ih =>
      rcases List.mem_cons.mp hb with rfl | hb
      · exact ⟨_, List.mem_cons_self, hhead⟩
      · obtain ⟨a, ha, hab⟩ := ih hb
        exact ⟨a, List.mem_cons_of_mem _ ha, hab⟩

/-- Every element of a list that a list was built from has given an element. -/
theorem exists_of_map_m {f : α → Except ε β} {as : List α} {bs : List β} {a : α}
    (h : as.mapM f = .ok bs) (ha : a ∈ as) : ∃ b ∈ bs, f a = .ok b := by
  have hall := map_m_eq_ok.mp h
  clear h
  induction hall with
  | nil => simp at ha
  | cons hhead _ ih =>
      rcases List.mem_cons.mp ha with rfl | ha
      · exact ⟨_, List.mem_cons_self, hhead⟩
      · obtain ⟨b, hb, hab⟩ := ih ha
        exact ⟨b, List.mem_cons_of_mem _ hb, hab⟩

/-- A list that cannot be built fails at the first element that fails. -/
theorem first_of_map_m {f : α → Except ε β} {as : List α} {fault : ε}
    (h : as.mapM f = .error fault) :
    ∃ before a after, as = before ++ a :: after ∧ (∀ b ∈ before, ∃ c, f b = .ok c) ∧
      f a = .error fault := by
  induction as with
  | nil => cases h
  | cons a as ih =>
      rw [List.mapM_cons] at h
      cases ha : f a with
      | error other =>
          rw [ha] at h
          cases h
          exact ⟨[], a, as, rfl, fun b hb => absurd hb List.not_mem_nil, ha⟩
      | ok c =>
          rw [ha] at h
          have hrest : as.mapM f = .error fault := by
            cases has : as.mapM f with
            | error other =>
                rw [has] at h
                cases h
                rfl
            | ok cs =>
                rw [has] at h
                cases h
          obtain ⟨before, first, after, rfl, hbefore, hfirst⟩ := ih hrest
          exact ⟨a :: before, first, after, rfl, List.forall_mem_cons.mpr ⟨⟨c, ha⟩, hbefore⟩, hfirst⟩

/-- Two lists built from the same list agree element by element if they do as a whole. -/
theorem map_m_pointwise {f g : α → Except ε β} {k : β → β} {as : List α} {bs : List β}
    (hf : as.mapM f = .ok bs) (hg : as.mapM g = .ok (bs.map k)) :
    ∀ a ∈ as, ∃ b ∈ bs, f a = .ok b ∧ g a = .ok (k b) := by
  rw [map_m_eq_ok] at hf hg
  induction hf with
  | nil => exact fun a ha => absurd ha List.not_mem_nil
  | cons hhead _ ih =>
      obtain ⟨hsame, hrest⟩ := List.forall₂_cons.mp hg
      intro a ha
      rcases List.mem_cons.mp ha with rfl | ha
      · exact ⟨_, List.mem_cons_self, hhead, hsame⟩
      · obtain ⟨b, hb, hab⟩ := ih hrest a ha
        exact ⟨b, List.mem_cons_of_mem _ hb, hab⟩

/-- Two lists built from the same list agree as a whole exactly if they do element by element. -/
theorem map_m_map_iff {f g : α → Except ε β} {k : β → β} {P : α → Prop} {as : List α}
    {bs : List β} (hf : as.mapM f = .ok bs)
    (h : ∀ a b, f a = .ok b → (g a = .ok (k b) ↔ P a)) :
    as.mapM g = .ok (bs.map k) ↔ ∀ a ∈ as, P a := by
  constructor
  · intro hg a ha
    obtain ⟨b, -, hfa, hga⟩ := map_m_pointwise hf hg a ha
    exact (h a b hfa).mp hga
  · intro hall
    rw [map_m_eq_ok] at hf ⊢
    induction hf with
    | nil => exact .nil
    | cons hhead _ ih =>
        refine .cons ((h _ _ hhead).mpr (hall _ List.mem_cons_self)) (ih fun a ha => ?_)
        exact hall a (List.mem_cons_of_mem _ ha)

end MirAudit.Outcome
