import MirAudit.Proofs.Source.Lookahead

/-!
# Grammars with one derivation

A grammar whose choices exclude each other has at most one derivation of a sequence of tokens, also
where one token of lookahead does not tell the choices apart. Read `Gram.eq_of_yield` first.
`Gram.Settled` is the condition; `Settled.of_predictive` covers the parts that one token decides.
-/

namespace MirAudit.Source.Gram

variable {N : Type} {ρ : N → Type} {rules : (n : N) → Gram ρ (ρ n)} {α : Type}
  {follow : List Terminal}

/-- No tokens are derived by both grammars in front of what may follow them. -/
def Excludes (rules : (n : N) → Gram ρ (ρ n)) (p q : Gram ρ α) (follow : List Terminal) : Prop :=
  ∀ us vs rest left a b, Derives rules p us a → Derives rules q vs b →
    Follows follow rest → Follows follow left → us ++ rest ≠ vs ++ left

theorem Excludes.of_apart (table : FirstTable rules) {p q : Gram ρ α} (hnull : p.nullable = false)
    (hapart : apart (p.first table.firstOf) (q.ahead table.firstOf follow) = true) :
    Excludes rules p q follow := by
  intro us vs rest left a b hp hq hrest hleft hsplit
  have hstart := table.starts_with_of_derives hp hnull rest
  rw [hsplit, not_starts_with_of_apart hapart (table.follows_ahead hq hleft)] at hstart
  cases hstart

theorem Excludes.choice {p q r : Gram ρ α} (hq : Excludes rules p q follow)
    (hr : Excludes rules p r follow) : Excludes rules p (q <|> r) follow := by
  intro us vs rest left a b hp hqr
  rcases derives_choice_iff.mp hqr with h | h
  · exact hq us vs rest left a b hp h
  · exact hr us vs rest left a b hp h

/-- Behind the same token, grammars exclude each other as they do without it. -/
theorem Excludes.behind_token {p q : Gram ρ α} (h : Excludes rules p q follow) (t : Terminal) :
    Excludes rules (.token t *> p) (.token t *> q) follow := by
  intro us vs rest left a b hleftSide hrightSide hrest hleft hsplit
  obtain ⟨_, us, tok, rfl, htok, hp⟩ := derives_seq_right_iff.mp hleftSide
  obtain ⟨_, vs, tok', rfl, htok', hq⟩ := derives_seq_right_iff.mp hrightSide
  obtain ⟨rfl, -⟩ := derives_token_iff.mp htok
  obtain ⟨rfl, -⟩ := derives_token_iff.mp htok'
  exact h us vs rest left a b hp hq hrest hleft (List.cons.inj hsplit).2

/-- The choices of a grammar exclude each other, and its repetitions end where they must. -/
def Settled (rules : (n : N) → Gram ρ (ρ n)) (firstOf followOf : N → List Terminal) :
    {α : Type} → Gram ρ α → (follow : List Terminal) → Prop
  | _, .token _, _ => True
  | _, .done _, _ => True
  | _, .seq p q, follow =>
    Settled rules firstOf followOf p (q.ahead firstOf follow)
      ∧ Settled rules firstOf followOf q follow
  | _, .choice p q, follow =>
    Excludes rules p q follow ∧ Settled rules firstOf followOf p follow
      ∧ Settled rules firstOf followOf q follow
  | _, .many p, follow =>
    p.nullable = false ∧ apart (p.first firstOf) follow = true
      ∧ Settled rules firstOf followOf p (p.first firstOf ++ follow)
  | _, .map _ p, follow => Settled rules firstOf followOf p follow
  | _, .spanned p, follow => Settled rules firstOf followOf p follow
  | _, .rule n, follow => follow ⊆ followOf n

theorem Settled.of_predictive (table : FirstTable rules) {followOf : N → List Terminal}
    {g : Gram ρ α} (h : g.predictive table.firstOf followOf follow = true) :
    g.Settled rules table.firstOf followOf follow := by
  induction g generalizing follow with
  | token t => trivial
  | done a => trivial
  | seq p q hp hq =>
      obtain ⟨hleft, hright⟩ := Bool.and_eq_true_iff.mp h
      exact ⟨hp hleft, hq hright⟩
  | choice p q hp hq =>
      simp only [predictive, Bool.and_eq_true, Bool.not_eq_true'] at h
      obtain ⟨⟨⟨hnull, hapart⟩, hleft⟩, hright⟩ := h
      exact ⟨Excludes.of_apart table hnull hapart, hp hleft, hq hright⟩
  | many p hp =>
      simp only [predictive, Bool.and_eq_true, Bool.not_eq_true'] at h
      obtain ⟨⟨hnull, hapart⟩, hmembers⟩ := h
      exact ⟨hnull, hapart, hp hmembers⟩
  | map f p hp => exact hp h
  | spanned p hp => exact hp h
  | rule n =>
      intro t ht
      simpa using List.all_eq_true.mp h t ht

namespace Derivation

theorem derives {g : Gram ρ α} (d : Derivation rules g) : Derives rules g d.yield d.value :=
  derives_iff_derivation.mpr ⟨d, rfl, rfl⟩

/-- The outermost step of a derivation, by the form of the grammar. -/
def HasForm : {α : Type} → (g : Gram ρ α) → Derivation rules g → Prop
  | _, .token _, d => ∃ tok h, d = token tok h
  | _, .done a, d => d = done a
  | _, .seq _ _, d => ∃ dp dq, d = seq dp dq
  | _, .choice _ _, d => (∃ dp, d = left dp) ∨ ∃ dq, d = right dq
  | _, .many _, d => d = manyNil ∨ ∃ dp dps, d = manyCons dp dps
  | _, .map _ _, d => ∃ dp, d = map dp
  | _, .spanned _, d => ∃ dp, d = spanned dp
  | _, .rule _, d => ∃ dn, d = rule dn

theorem has_form {g : Gram ρ α} (d : Derivation rules g) : HasForm g d := by
  cases d with
  | token tok h => exact ⟨tok, h, rfl⟩
  | done a => rfl
  | seq dp dq => exact ⟨dp, dq, rfl⟩
  | left dp => exact Or.inl ⟨dp, rfl⟩
  | right dq => exact Or.inr ⟨dq, rfl⟩
  | manyNil => exact Or.inl rfl
  | manyCons dp dps => exact Or.inr ⟨dp, dps, rfl⟩
  | map dp => exact ⟨dp, rfl⟩
  | spanned dp => exact ⟨dp, rfl⟩
  | rule dn => exact ⟨dn, rfl⟩

end Derivation

/-- A repetition that goes on does not derive what may follow it. -/
theorem yield_append_ne_follow (table : FirstTable rules) {p : Gram ρ α} {left rest : List Token}
    (hnull : p.nullable = false) (hapart : apart (p.first table.firstOf) follow = true)
    (d : Derivation rules p) (hrest : Follows follow rest) : d.yield ++ left ≠ rest := by
  intro hsplit
  have hstart := table.starts_with_of_derives d.derives hnull left
  rw [hsplit, not_starts_with_of_apart hapart hrest] at hstart
  cases hstart

/-- Two derivations of one settled grammar are the same if they derive the same tokens, or differ
only in how much is left for what may follow. -/
theorem eq_of_yield (table : FirstTable rules) {followOf : N → List Terminal}
    (hrules : ∀ n, (rules n).Settled rules table.firstOf followOf (followOf n)) {g : Gram ρ α}
    (d : Derivation rules g) :
    ∀ {follow : List Terminal} {rest left : List Token} (e : Derivation rules g),
      g.Settled rules table.firstOf followOf follow → Follows follow rest → Follows follow left →
      d.yield ++ rest = e.yield ++ left → d = e := by
  induction d with
  | token tok hterminal =>
      intro follow rest left e _ _ _ hsplit
      obtain ⟨tok', _, rfl⟩ := e.has_form
      obtain rfl := (List.cons.inj hsplit).1
      rfl
  | done a =>
      intro follow rest left e _ _ _ _
      exact e.has_form.symm
  | @seq _ _ p q dp dq hp hq =>
      intro follow rest left e hset hrest hleft hsplit
      obtain ⟨ep, eq, rfl⟩ := e.has_form
      simp only [Derivation.yield, List.append_assoc] at hsplit
      obtain rfl := hp ep hset.1 (table.follows_ahead dq.derives hrest)
        (table.follows_ahead eq.derives hleft) hsplit
      obtain rfl := hq eq hset.2 hrest hleft (List.append_cancel_left hsplit)
      rfl
  | left dp hp =>
      intro follow rest left e hset hrest hleft hsplit
      obtain ⟨ep, rfl⟩ | ⟨eq, rfl⟩ := e.has_form
      · obtain rfl := hp ep hset.2.1 hrest hleft hsplit
        rfl
      · exact absurd hsplit (hset.1 _ _ _ _ _ _ dp.derives eq.derives hrest hleft)
  | right dq hq =>
      intro follow rest left e hset hrest hleft hsplit
      obtain ⟨ep, rfl⟩ | ⟨eq, rfl⟩ := e.has_form
      · exact absurd hsplit.symm (hset.1 _ _ _ _ _ _ ep.derives dq.derives hleft hrest)
      · obtain rfl := hq eq hset.2.2 hrest hleft hsplit
        rfl
  | manyNil =>
      intro follow rest left e hset hrest hleft hsplit
      obtain rfl | ⟨ep, eps, rfl⟩ := e.has_form
      · rfl
      · rw [Derivation.yield, Derivation.yield, List.nil_append, List.append_assoc] at hsplit
        exact absurd hsplit.symm (yield_append_ne_follow table hset.1 hset.2.1 ep hrest)
  | @manyCons _ p dp dps hp hps =>
      intro follow rest left e hset hrest hleft hsplit
      obtain rfl | ⟨ep, eps, rfl⟩ := e.has_form
      · rw [Derivation.yield, Derivation.yield, List.nil_append, List.append_assoc] at hsplit
        exact absurd hsplit (yield_append_ne_follow table hset.1 hset.2.1 dp hleft)
      · simp only [Derivation.yield, List.append_assoc] at hsplit
        obtain rfl := hp ep hset.2.2 (table.follows_ahead dps.derives hrest)
          (table.follows_ahead eps.derives hleft) hsplit
        obtain rfl := hps eps hset hrest hleft (List.append_cancel_left hsplit)
        rfl
  | map dp hp =>
      intro follow rest left e hset hrest hleft hsplit
      obtain ⟨ep, rfl⟩ := e.has_form
      obtain rfl := hp ep hset hrest hleft hsplit
      rfl
  | spanned dp hp =>
      intro follow rest left e hset hrest hleft hsplit
      obtain ⟨ep, rfl⟩ := e.has_form
      obtain rfl := hp ep hset hrest hleft hsplit
      rfl
  | @rule n dn hn =>
      intro follow rest left e hset hrest hleft hsplit
      obtain ⟨en, rfl⟩ := e.has_form
      obtain rfl := hn en (hrules n) (hrest.mono hset) (hleft.mono hset) hsplit
      rfl

end MirAudit.Source.Gram
