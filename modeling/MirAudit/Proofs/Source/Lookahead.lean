import MirAudit.Proofs.Source.Derivations

/-!
# Reading with one token of lookahead

`Gram.parse` reads exactly what the grammar derives, provided that one token decides every choice.
`Gram.predictive` checks that from the terminals that can stand next, and `Lookahead` is a table of
such terminals for the named rules. Read `parse_eq_ok_iff` first; `parse_with_sound` needs no table,
`parse_with_complete` does.
-/

namespace MirAudit.Source.Gram

variable {N : Type} {ρ : N → Type} {rules : (n : N) → Gram ρ (ρ n)} {α β : Type}
  {ts rest : List Token}

/-! ## What a reader yields is derived -/

namespace Parsed

/-- A sequence is read if its parts are, one behind the other. -/
theorem and_then_eq_ok {r : Parsed α} {next : α → List Token → Parsed β} {b : β}
    {taken : List Token} :
    r.andThen next = .ok b taken rest ↔
      ∃ a us vs mid, r = .ok a us mid ∧ next a mid = .ok b vs rest ∧ taken = us ++ vs := by
  cases r with
  | stuck left => simp [andThen]
  | ok a us mid => cases hnext : next a mid <;> simp [andThen, hnext, and_comm, and_assoc, eq_comm]

theorem map_eq_ok {r : Parsed α} {f : α → β} {b : β} {taken : List Token} :
    r.map f = .ok b taken rest ↔ ∃ a, r = .ok a taken rest ∧ f a = b := by
  cases r <;> simp [map, and_comm]

theorem spanned_eq_ok {r : Parsed α} {b : Spanned α} {taken : List Token} :
    r.spanned = .ok b taken rest ↔
      r = .ok b.value taken rest ∧ b.region = Region.ofTokens taken := by
  obtain ⟨value, region⟩ := b
  cases r <;> simp [spanned]
  grind

end Parsed

/-- A reader yields what a grammar derives, and splits the tokens. -/
def ReadsFrom (rules : (n : N) → Gram ρ (ρ n)) (g : Gram ρ α) (read : List Token → Parsed α) :
    Prop :=
  ∀ ts a taken rest, read ts = .ok a taken rest → ts = taken ++ rest ∧ Derives rules g taken a

/-- A repetition reads what its part reads, many times. -/
theorem ReadsFrom.repeat_while {p : Gram ρ α} {read : List Token → Parsed α}
    (hread : ReadsFrom rules p read) (terminals : List Terminal) (limit : Nat) :
    ReadsFrom rules (.many p) (repeatWhile terminals read limit) := by
  induction limit with
  | zero =>
      intro ts as taken rest h
      cases h
      exact ⟨rfl, .manyNil⟩
  | succ limit ih =>
      intro ts as taken rest h
      rw [repeatWhile] at h
      split at h
      · obtain ⟨a, us, vs, mid, ha, htail, rfl⟩ := Parsed.and_then_eq_ok.mp h
        obtain ⟨bs, hbs, rfl⟩ := Parsed.map_eq_ok.mp htail
        obtain ⟨rfl, hp⟩ := hread _ _ _ _ ha
        obtain ⟨rfl, hmany⟩ := ih _ _ _ _ hbs
        exact ⟨(List.append_assoc _ _ _).symm, .manyCons hp hmany⟩
      · cases h
        exact ⟨rfl, .manyNil⟩

/-- What is read of a form is derived, if this is so of the rules. -/
theorem parse_with_sound {firstOf : N → List Terminal}
    {parseRule : (n : N) → List Token → Parsed (ρ n)}
    (hrule : ∀ n, ReadsFrom rules (rules n) (parseRule n)) (limit : Nat) (g : Gram ρ α) :
    ReadsFrom rules g (g.parseWith firstOf parseRule limit) := by
  induction g with
  | token t =>
      intro ts a taken rest h
      cases ts with
      | nil => cases h
      | cons tok ts =>
          simp only [parseWith] at h
          split at h
          · next ht =>
            cases h
            exact ⟨rfl, derives_token_iff.mpr ⟨rfl, ht⟩⟩
          · cases h
  | done b =>
      intro ts a taken rest h
      cases h
      exact ⟨rfl, .done b⟩
  | seq p q hp hq =>
      intro ts a taken rest h
      obtain ⟨x, us, vs, mid, hx, hrest, rfl⟩ := Parsed.and_then_eq_ok.mp h
      obtain ⟨y, hy, rfl⟩ := Parsed.map_eq_ok.mp hrest
      obtain ⟨rfl, hdp⟩ := hp _ _ _ _ hx
      obtain ⟨rfl, hdq⟩ := hq _ _ _ _ hy
      exact ⟨(List.append_assoc _ _ _).symm, .seq hdp hdq⟩
  | choice p q hp hq =>
      intro ts a taken rest h
      rw [parseWith] at h
      split at h
      · obtain ⟨hts, hd⟩ := hp _ _ _ _ h
        exact ⟨hts, .left hd⟩
      · obtain ⟨hts, hd⟩ := hq _ _ _ _ h
        exact ⟨hts, .right hd⟩
  | many p hp => exact hp.repeat_while _ _
  | map f p hp =>
      intro ts b taken rest h
      obtain ⟨a, ha, rfl⟩ := Parsed.map_eq_ok.mp h
      obtain ⟨hts, hd⟩ := hp _ _ _ _ ha
      exact ⟨hts, .map hd⟩
  | spanned p hp =>
      intro ts b taken rest h
      obtain ⟨ha, hregion⟩ := Parsed.spanned_eq_ok.mp h
      obtain ⟨hts, hd⟩ := hp _ _ _ _ ha
      exact ⟨hts, derives_spanned_iff.mpr ⟨hd, hregion⟩⟩
  | rule n =>
      intro ts a taken rest h
      obtain ⟨hts, hd⟩ := hrule n _ _ _ _ h
      exact ⟨hts, .rule hd⟩

/-- What is read of a rule is derived, by induction on the depth that is left. -/
theorem parse_rule_sound {firstOf : N → List Terminal} (depth : Nat) (n : N) :
    ReadsFrom rules (rules n) (parseRule firstOf rules depth n) := by
  induction depth generalizing n with
  | zero =>
      intro ts a taken rest h
      cases h
  | succ depth ih => exact parse_with_sound ih depth (rules n)

/-! ## First terminals -/

/-- Whether tokens that are left over are none, or start with one of the terminals. -/
def Follows (follow : List Terminal) (rest : List Token) : Prop :=
  ∀ tok ∈ rest.head?, tok.terminal ∈ follow

/-- The terminals that can stand next where a grammar is read in front of `follow`. -/
def ahead (firstOf : N → List Terminal) (g : Gram ρ α) (follow : List Terminal) : List Terminal :=
  g.first firstOf ++ if g.nullable then follow else []

/-- Whether no terminal of the second list is in the first. -/
def apart (left right : List Terminal) : Bool :=
  right.all fun t => !left.contains t

/-- A table of the terminals with which the named rules start. -/
structure FirstTable (rules : (n : N) → Gram ρ (ρ n)) where
  firstOf : N → List Terminal
  not_nullable : ∀ n, (rules n).nullable = false
  first_subset : ∀ n, (rules n).first firstOf ⊆ firstOf n

theorem Follows.of_cons {follow : List Terminal} {tok : Token} (h : tok.terminal ∈ follow) :
    Follows follow (tok :: ts) := by
  intro head hhead
  cases hhead
  exact h

theorem Follows.mono {follow wider : List Terminal} (h : Follows follow rest)
    (hsub : follow ⊆ wider) : Follows wider rest :=
  fun tok htok => hsub (h tok htok)

/-- What follows does not start a form whose first terminals are others. -/
theorem not_starts_with_of_apart {left right : List Terminal} (hapart : apart left right = true)
    (h : Follows right rest) : startsWith left rest = false := by
  cases rest with
  | nil => rfl
  | cons tok rest =>
      have hnot := List.all_eq_true.mp hapart _ (h tok rfl)
      simpa [startsWith] using hnot

namespace FirstTable

variable (table : FirstTable rules)

include table in
/-- What a grammar derives starts with one of its first terminals; only a nullable grammar derives
no token. -/
theorem head_mem_first {g : Gram ρ α} {a : α} (h : Derives rules g ts a) :
    (ts = [] → g.nullable = true) ∧ Follows (g.first table.firstOf) ts := by
  induction h with
  | token tok => exact ⟨nofun, Follows.of_cons (List.mem_singleton.mpr rfl)⟩
  | done a => exact ⟨fun _ => rfl, nofun⟩
  | @seq _ _ p q us vs a b _ _ hp hq =>
      cases us with
      | nil =>
          have hnull := hp.1 rfl
          constructor
          · intro hnil
            rw [nullable, hnull, hq.1 hnil]
            rfl
          · refine hq.2.mono ?_
            simp [first, hnull]
      | cons tok us =>
          refine ⟨nofun, Follows.of_cons ?_⟩
          exact List.mem_append_left _ (hp.2 tok rfl)
  | left _ hp =>
      refine ⟨fun hnil => ?_, hp.2.mono (List.subset_append_left _ _)⟩
      rw [nullable, hp.1 hnil, Bool.true_or]
  | right _ hq =>
      refine ⟨fun hnil => ?_, hq.2.mono (List.subset_append_right _ _)⟩
      rw [nullable, hq.1 hnil, Bool.or_true]
  | manyNil => exact ⟨fun _ => rfl, nofun⟩
  | @manyCons _ p us vs a as _ _ hp hrest =>
      refine ⟨fun _ => rfl, ?_⟩
      cases us with
      | nil => exact hrest.2
      | cons tok us => exact Follows.of_cons (hp.2 tok rfl)
  | map _ hp => exact hp
  | spanned _ hp => exact hp
  | @rule n _ _ _ hp =>
      refine ⟨fun hnil => ?_, hp.2.mono (table.first_subset n)⟩
      have hnull := hp.1 hnil
      rw [table.not_nullable n] at hnull
      cases hnull

include table in
/-- A form that is not nullable has no empty text. -/
theorem ne_nil_of_derives {g : Gram ρ α} {a : α} (h : Derives rules g ts a)
    (hnull : g.nullable = false) : ts ≠ [] := by
  intro hnil
  rw [(table.head_mem_first h).1 hnil] at hnull
  cases hnull

/-- What stands next where a grammar was read in front of other tokens. -/
theorem follows_ahead {g : Gram ρ α} {a : α} {follow : List Terminal} (h : Derives rules g ts a)
    (hrest : Follows follow rest) : Follows (g.ahead table.firstOf follow) (ts ++ rest) := by
  obtain ⟨hnull, hfirst⟩ := table.head_mem_first h
  cases ts with
  | nil =>
      refine hrest.mono ?_
      simp [ahead, hnull rfl]
  | cons tok ts => exact Follows.of_cons (List.mem_append_left _ (hfirst tok rfl))

/-- A text starts with one of the first terminals of its form. -/
theorem starts_with_of_derives {g : Gram ρ α} {a : α} (h : Derives rules g ts a)
    (hnull : g.nullable = false) (rest : List Token) :
    startsWith (g.first table.firstOf) (ts ++ rest) = true := by
  have hfirst := (table.head_mem_first h).2
  cases ts with
  | nil => exact absurd rfl (table.ne_nil_of_derives h hnull)
  | cons tok ts => simpa [startsWith] using hfirst tok rfl

theorem append_ne_cons {g : Gram ρ α} {a : α} {left : List Token} {tok : Token}
    (h : Derives rules g ts a) (hnull : g.nullable = false)
    (htok : tok.terminal ∉ g.first table.firstOf) : ts ++ left ≠ tok :: rest := by
  intro hsplit
  have hstart := table.starts_with_of_derives h hnull left
  rw [hsplit, startsWith, List.contains_iff_mem] at hstart
  exact htok hstart

end FirstTable

/-! ## Tables of lookahead -/

/-- Whether the next token decides every choice in a grammar, also whether a repetition goes on.
`follow` are the terminals that may stand behind what the grammar yields. -/
def predictive (firstOf followOf : N → List Terminal) :
    {α : Type} → Gram ρ α → (follow : List Terminal) → Bool
  | _, .token _, _ => true
  | _, .done _, _ => true
  | _, .seq p q, follow =>
    p.predictive firstOf followOf (q.ahead firstOf follow) && q.predictive firstOf followOf follow
  | _, .choice p q, follow =>
    !p.nullable && apart (p.first firstOf) (q.ahead firstOf follow)
      && p.predictive firstOf followOf follow && q.predictive firstOf followOf follow
  | _, .many p, follow =>
    !p.nullable && apart (p.first firstOf) follow
      && p.predictive firstOf followOf (p.first firstOf ++ follow)
  | _, .map _ p, follow => p.predictive firstOf followOf follow
  | _, .spanned p, follow => p.predictive firstOf followOf follow
  | _, .rule n, follow => follow.all (followOf n).contains

/-- A bound on the ranks of the named rules that are read before any token is taken. -/
def lead (rank : N → Nat) : {α : Type} → Gram ρ α → Nat
  | _, .token _ => 0
  | _, .done _ => 0
  | _, .seq p q => max (p.lead rank) (if p.nullable then q.lead rank else 0)
  | _, .choice p q => max (p.lead rank) (q.lead rank)
  | _, .many p => p.lead rank
  | _, .map _ p => p.lead rank
  | _, .spanned p => p.lead rank
  | _, .rule n => rank n + 1

/-- A table, with the terminals that stand behind the named rules, under which one token decides
every choice. The ranks show that a rule does not come back to itself before it takes a token. -/
structure Lookahead (rules : (n : N) → Gram ρ (ρ n)) extends FirstTable rules where
  followOf : N → List Terminal
  rank : N → Nat
  predictive : ∀ n, (rules n).predictive firstOf followOf (followOf n) = true
  lead_le : ∀ n, (rules n).lead rank ≤ rank n
  rank_le : ∀ n, rank n ≤ 1

namespace Lookahead

variable (look : Lookahead rules)

include look in
/-- No lead is above two, since no rank is above one. -/
theorem lead_le_two (g : Gram ρ α) : g.lead look.rank ≤ 2 := by
  induction g with
  | token t => exact Nat.zero_le _
  | done a => exact Nat.zero_le _
  | seq p q hp hq =>
      rw [lead]
      split <;> omega
  | choice p q hp hq => exact Nat.max_le.mpr ⟨hp, hq⟩
  | many p hp => exact hp
  | map f p hp => exact hp
  | spanned p hp => exact hp
  | rule n => exact Nat.succ_le_succ (look.rank_le n)

/-! ## What is derived is read -/

/-- The named rules are read in front of what may follow them, as far as `budget` allows. -/
def ReadsRules (budget : Nat) (readRule : (n : N) → List Token → Parsed (ρ n)) : Prop :=
  ∀ n ts a rest, Derives rules (rules n) ts a → Follows (look.followOf n) rest →
    2 * ts.length + look.rank n < budget → readRule n (ts ++ rest) = .ok a ts rest

variable {look} {budget limit : Nat} {readRule : (n : N) → List Token → Parsed (ρ n)}

/-- A repetition reads all of a text whose parts are read, if nothing that follows starts a part. -/
theorem repeat_while_complete {p : Gram ρ α} {read : List Token → Parsed α} {as : List α}
    {follow : List Terminal} (h : Derives rules (.many p) ts as) (hnull : p.nullable = false)
    (hapart : apart (p.first look.firstOf) follow = true) (hfollow : Follows follow rest)
    (hlimit : ts.length ≤ limit)
    (hread : ∀ us b left, Derives rules p us b → us.length ≤ ts.length →
      Follows (p.first look.firstOf ++ follow) left → read (us ++ left) = .ok b us left) :
    repeatWhile (p.first look.firstOf) read limit (ts ++ rest) = .ok as ts rest := by
  induction limit generalizing ts as with
  | zero =>
      obtain rfl := List.length_eq_zero_iff.mp (Nat.le_zero.mp hlimit)
      obtain ⟨-, rfl⟩ | ⟨us, vs, b, bs, hsplit, -, hp, -⟩ := derives_iff_yields.mp h
      · rfl
      · obtain ⟨rfl, -⟩ := List.append_eq_nil_iff.mp hsplit.symm
        exact absurd rfl (look.ne_nil_of_derives hp hnull)
  | succ limit ih =>
      obtain ⟨rfl, rfl⟩ | ⟨us, vs, b, bs, rfl, rfl, hp, hmany⟩ := derives_iff_yields.mp h
      · rw [repeatWhile, List.nil_append, not_starts_with_of_apart hapart hfollow]
        rfl
      · have hus := List.length_pos_iff.mpr (look.ne_nil_of_derives hp hnull)
        rw [List.length_append] at hlimit
        have hnext : Follows (p.first look.firstOf ++ follow) (vs ++ rest) :=
          look.follows_ahead hmany hfollow
        have hhead := hread us b (vs ++ rest) hp (by simp) hnext
        have htail := ih hmany (by omega) fun us' b' left hp' hlen hleft =>
          hread us' b' left hp' (by simp only [List.length_append]; omega) hleft
        rw [repeatWhile, List.append_assoc, look.starts_with_of_derives hp hnull]
        simp [hhead, htail, Parsed.andThen, Parsed.map]

/-- What a grammar derives is read back in front of all that may follow it. -/
theorem parse_with_complete (hrules : look.ReadsRules budget readRule) {g : Gram ρ α} {a : α}
    {follow : List Terminal} (h : Derives rules g ts a)
    (hpred : g.predictive look.firstOf look.followOf follow = true)
    (hfollow : Follows follow rest) (hlimit : ts.length ≤ limit)
    (hbudget : 2 * ts.length + g.lead look.rank ≤ budget) :
    g.parseWith look.firstOf readRule limit (ts ++ rest) = .ok a ts rest := by
  induction g generalizing ts rest follow with
  | token t =>
      obtain ⟨rfl, ht⟩ := derives_token_iff.mp h
      simp [parseWith, ht]
  | done b =>
      obtain ⟨rfl, rfl⟩ := derives_pure_iff.mp h
      rfl
  | seq p q hp hq =>
      obtain ⟨us, vs, rfl, hdp, hdq⟩ := derives_seq_iff.mp h
      simp only [Gram.predictive, Bool.and_eq_true] at hpred
      simp only [List.length_append] at hlimit hbudget
      have hleft : 2 * us.length + p.lead look.rank ≤ budget := by
        have := Nat.le_max_left (p.lead look.rank) (if p.nullable then q.lead look.rank else 0)
        rw [lead] at hbudget
        omega
      -- behind at least one token, any reference fits into the budget
      have hright : 2 * vs.length + q.lead look.rank ≤ budget := by
        cases us with
        | nil =>
            rw [lead, (look.head_mem_first hdp).1 rfl, if_pos rfl] at hbudget
            rw [List.length_nil] at hbudget
            omega
        | cons tok us =>
            have := look.lead_le_two q
            rw [List.length_cons] at hbudget
            omega
      have hnext := look.follows_ahead hdq hfollow
      rw [parseWith, List.append_assoc, hp hdp hpred.1 hnext (by omega) hleft]
      simp [Parsed.andThen, Parsed.map, hq hdq hpred.2 hfollow (by omega) hright]
  | choice p q hp hq =>
      simp only [Gram.predictive, Bool.and_eq_true, Bool.not_eq_true'] at hpred
      obtain ⟨⟨⟨hnull, hapart⟩, hpredp⟩, hpredq⟩ := hpred
      rw [lead] at hbudget
      rw [parseWith]
      rcases derives_choice_iff.mp h with hd | hd
      · rw [look.starts_with_of_derives hd hnull, if_pos rfl]
        exact hp hd hpredp hfollow hlimit (by omega)
      · rw [not_starts_with_of_apart hapart (look.follows_ahead hd hfollow), if_neg nofun]
        exact hq hd hpredq hfollow hlimit (by omega)
  | many p hp =>
      simp only [Gram.predictive, Bool.and_eq_true, Bool.not_eq_true'] at hpred
      obtain ⟨⟨hnull, hapart⟩, hpredp⟩ := hpred
      rw [lead] at hbudget
      exact repeat_while_complete h hnull hapart hfollow hlimit
        fun us b left hd hlen hleft => hp hd hpredp hleft (by omega) (by omega)
  | map f p hp =>
      obtain ⟨b, hd, rfl⟩ := derives_map_iff.mp h
      rw [parseWith, hp hd hpred hfollow hlimit hbudget]
      rfl
  | spanned p hp =>
      obtain ⟨hd, hregion⟩ := derives_spanned_iff.mp h
      rw [parseWith, hp hd hpred hfollow hlimit hbudget, Parsed.spanned, ← hregion]
  | rule n =>
      have hsub : follow ⊆ look.followOf n := by
        intro t ht
        simpa using List.all_eq_true.mp hpred t ht
      exact hrules n _ _ _ (derives_rule_iff.mp h) (hfollow.mono hsub) hbudget

/-- A named rule is read to the depth at which every second reference takes a token. -/
theorem parse_rule_complete (depth : Nat) :
    look.ReadsRules (depth + 1) (parseRule look.firstOf rules depth) := by
  induction depth with
  | zero =>
      intro n ts a rest h _ hlt
      have := List.length_pos_iff.mpr (look.ne_nil_of_derives h (look.not_nullable n))
      omega
  | succ depth ih =>
      intro n ts a rest h hfollow hlt
      have hpos := List.length_pos_iff.mpr (look.ne_nil_of_derives h (look.not_nullable n))
      have hlead := look.lead_le n
      exact parse_with_complete ih h (look.predictive n) hfollow (by omega) (by omega)

/-- Reading a predictive grammar accepts exactly what the grammar derives, with its value. -/
theorem parse_eq_ok_iff {g : Gram ρ α} {a : α}
    (hpred : g.predictive look.firstOf look.followOf [] = true) :
    parse look.firstOf rules g ts = .ok a ↔ Derives rules g ts a := by
  constructor
  · intro h
    rw [parse] at h
    split at h
    · next b taken hparse =>
      cases h
      obtain ⟨rfl, hd⟩ := parse_with_sound (parse_rule_sound _) _ g _ _ _ _ hparse
      rwa [List.append_nil]
    · cases h
    · cases h
  · intro h
    have hrules : look.ReadsRules (depthFor ts.length + 1)
        (parseRule look.firstOf rules (depthFor ts.length)) :=
      parse_rule_complete _
    have hlimit : ts.length ≤ depthFor ts.length := by
      rw [depthFor]
      omega
    have hbudget : 2 * ts.length + g.lead look.rank ≤ depthFor ts.length + 1 := by
      have := look.lead_le_two g
      rw [depthFor]
      omega
    have hend : Follows [] ([] : List Token) := nofun
    have hparse := parse_with_complete hrules h hpred hend hlimit hbudget
    rw [List.append_nil] at hparse
    rw [parse, hparse]

/-- One sequence of tokens has one split into what a predictive grammar derives and what may
follow. -/
theorem derives_unique {g : Gram ρ α} {us left : List Token} {a b : α} {follow : List Terminal}
    (hpred : g.predictive look.firstOf look.followOf follow = true)
    (ha : Derives rules g ts a) (hrest : Follows follow rest)
    (hb : Derives rules g us b) (hleft : Follows follow left) (hsplit : ts ++ rest = us ++ left) :
    ts = us ∧ a = b := by
  have hdepth (vs : List Token) (hvs : vs.length ≤ ts.length + us.length) :
      vs.length ≤ depthFor (ts.length + us.length) ∧
        2 * vs.length + g.lead look.rank ≤ depthFor (ts.length + us.length) + 1 := by
    have := look.lead_le_two g
    rw [depthFor]
    omega
  have hrules : look.ReadsRules (depthFor (ts.length + us.length) + 1)
      (parseRule look.firstOf rules (depthFor (ts.length + us.length))) :=
    parse_rule_complete _
  have hta := parse_with_complete hrules ha hpred hrest (hdepth ts (by omega)).1
    (hdepth ts (by omega)).2
  have htb := parse_with_complete hrules hb hpred hleft (hdepth us (by omega)).1
    (hdepth us (by omega)).2
  rw [hsplit, htb] at hta
  cases hta
  exact ⟨rfl, rfl⟩

end Lookahead

end MirAudit.Source.Gram
