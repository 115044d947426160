import MirAudit.Proofs.Source.Reference

/-!
# Where reading breaks off

A sequence of tokens is viable if it is the beginning of something that the grammar derives.
Reading breaks off neither too late nor too early: the tokens taken before are viable, and with the
next token they are not. Read `syntax_fault_of_text` first, which says so of source texts.

`BreaksOff` is the first half, and needs only that every rule derives something. The second half
compares two readings that agree up to the next token: `Parsed.Agree`. They go on alike until they
are behind that token, so that one of them cannot break off there if the other reads on to the end.
-/

namespace MirAudit.Source.Gram

variable {N : Type} {ρ : N → Type} {rules : (n : N) → Gram ρ (ρ n)} {α β : Type}
  {ts us left : List Token}

/-- Whether the tokens are the beginning of something that the grammar derives. -/
def Viable (rules : (n : N) → Gram ρ (ρ n)) (g : Gram ρ α) (ts : List Token) : Prop :=
  ∃ us a, Derives rules g (ts ++ us) a

/-- What viable tokens begin with is viable. -/
theorem Viable.of_append {g : Gram ρ α} (h : Viable rules g (ts ++ us)) : Viable rules g ts := by
  obtain ⟨more, a, h⟩ := h
  exact ⟨us ++ more, a, List.append_assoc ts us more ▸ h⟩

/-- What the grammar derives is viable. -/
theorem Viable.of_derives {g : Gram ρ α} {a : α} (h : Derives rules g ts a) : Viable rules g ts :=
  ⟨[], a, (List.append_nil ts).symm ▸ h⟩

/-! ## What was taken can be continued -/

/-- Every named rule derives something. -/
def Productive (rules : (n : N) → Gram ρ (ρ n)) : Prop :=
  ∀ n, ∃ ts a, Derives rules (rules n) ts a

/-- Where every rule derives something, every grammar does. -/
theorem Productive.exists_derives (hrules : Productive rules) (g : Gram ρ α) :
    ∃ ts a, Derives rules g ts a := by
  induction g with
  | token t => exact ⟨_, _, .token ⟨t, [], {}, {}⟩⟩
  | done a => exact ⟨_, _, .done a⟩
  | seq p q hp hq =>
      obtain ⟨us, a, hp⟩ := hp
      obtain ⟨vs, b, hq⟩ := hq
      exact ⟨_, _, .seq hp hq⟩
  | choice p q hp _ =>
      obtain ⟨us, a, hp⟩ := hp
      exact ⟨_, _, .left hp⟩
  | many p _ => exact ⟨_, _, .manyNil⟩
  | map f p hp =>
      obtain ⟨us, a, hp⟩ := hp
      exact ⟨_, _, .map hp⟩
  | spanned p hp =>
      obtain ⟨us, a, hp⟩ := hp
      exact ⟨_, _, .spanned hp⟩
  | rule n =>
      obtain ⟨us, a, h⟩ := hrules n
      exact ⟨_, _, .rule h⟩

namespace Parsed

/-- A sequence is stuck in its first part, or in the second behind the first. -/
theorem and_then_eq_stuck {r : Parsed α} {next : α → List Token → Parsed β} :
    r.andThen next = .stuck left ↔
      r = .stuck left ∨ ∃ a us mid, r = .ok a us mid ∧ next a mid = .stuck left := by
  cases r with
  | stuck rest => simp [andThen]
  | ok a us mid => cases hnext : next a mid <;> simp [andThen, hnext]

theorem map_eq_stuck {r : Parsed α} {f : α → β} : r.map f = .stuck left ↔ r = .stuck left := by
  cases r <;> simp [map]

theorem spanned_eq_stuck {r : Parsed α} : r.spanned = .stuck left ↔ r = .stuck left := by
  cases r <;> simp [spanned]

end Parsed

/-- Where a reader of a grammar gets stuck, what it took can be continued. -/
def BreaksOff (rules : (n : N) → Gram ρ (ρ n)) (g : Gram ρ α) (read : List Token → Parsed α) :
    Prop :=
  ∀ ts rest, read ts = .stuck rest → ∃ taken, ts = taken ++ rest ∧ Viable rules g taken

/-- What is taken before a repetition breaks off is viable, if this is so of its part. -/
theorem BreaksOff.repeat_while {p : Gram ρ α} {read : List Token → Parsed α}
    (hstuck : BreaksOff rules p read) (hread : ReadsFrom rules p read) (terminals : List Terminal)
    (limit : Nat) : BreaksOff rules (.many p) (repeatWhile terminals read limit) := by
  induction limit with
  | zero =>
      intro ts rest h
      cases h
  | succ limit ih =>
      intro ts rest h
      rw [repeatWhile] at h
      split at h
      · rcases Parsed.and_then_eq_stuck.mp h with h | ⟨a, us, mid, ha, htail⟩
        · obtain ⟨taken, rfl, more, b, hp⟩ := hstuck _ _ h
          have hone : Derives rules (.many p) (taken ++ more ++ []) [b] := .manyCons hp .manyNil
          rw [List.append_nil] at hone
          exact ⟨taken, rfl, more, [b], hone⟩
        · obtain ⟨rfl, hp⟩ := hread _ _ _ _ ha
          obtain ⟨taken, rfl, more, bs, hmany⟩ := ih _ _ (Parsed.map_eq_stuck.mp htail)
          refine ⟨us ++ taken, (List.append_assoc _ _ _).symm, more, a :: bs, ?_⟩
          rw [List.append_assoc]
          exact .manyCons hp hmany
      · cases h

/-- What is taken before a form breaks off is viable, if this is so of the rules. -/
theorem parse_with_breaks_off {firstOf : N → List Terminal}
    {readRule : (n : N) → List Token → Parsed (ρ n)} (hprod : Productive rules)
    (hread : ∀ n, ReadsFrom rules (rules n) (readRule n))
    (hstuck : ∀ n, BreaksOff rules (rules n) (readRule n)) (limit : Nat) (g : Gram ρ α) :
    BreaksOff rules g (g.parseWith firstOf readRule limit) := by
  induction g with
  | token t =>
      intro ts rest h
      refine ⟨[], ?_, hprod.exists_derives (.token t)⟩
      cases ts with
      | nil =>
          cases h
          rfl
      | cons tok ts =>
          simp only [parseWith] at h
          split at h
          · cases h
          · cases h
            rfl
  | done a =>
      intro ts rest h
      cases h
  | seq p q hp hq =>
      intro ts rest h
      rcases Parsed.and_then_eq_stuck.mp h with h | ⟨a, us, mid, ha, htail⟩
      · obtain ⟨taken, rfl, more, a, hdp⟩ := hp _ _ h
        obtain ⟨vs, b, hdq⟩ := hprod.exists_derives q
        exact ⟨taken, rfl, more ++ vs, (a, b), List.append_assoc taken more vs ▸ .seq hdp hdq⟩
      · obtain ⟨rfl, hdp⟩ := parse_with_sound hread limit p _ _ _ _ ha
        obtain ⟨taken, rfl, more, b, hdq⟩ := hq _ _ (Parsed.map_eq_stuck.mp htail)
        refine ⟨us ++ taken, (List.append_assoc _ _ _).symm, more, (a, b), ?_⟩
        rw [List.append_assoc]
        exact .seq hdp hdq
  | choice p q hp hq =>
      intro ts rest h
      rw [parseWith] at h
      split at h
      · obtain ⟨taken, hts, more, a, hd⟩ := hp _ _ h
        exact ⟨taken, hts, more, a, .left hd⟩
      · obtain ⟨taken, hts, more, a, hd⟩ := hq _ _ h
        exact ⟨taken, hts, more, a, .right hd⟩
  | many p hp => exact hp.repeat_while (parse_with_sound hread limit p) _ _
  | map f p hp =>
      intro ts rest h
      obtain ⟨taken, hts, more, a, hd⟩ := hp _ _ (Parsed.map_eq_stuck.mp h)
      exact ⟨taken, hts, more, f a, .map hd⟩
  | spanned p hp =>
      intro ts rest h
      obtain ⟨taken, hts, more, a, hd⟩ := hp _ _ (Parsed.spanned_eq_stuck.mp h)
      exact ⟨taken, hts, more, _, .spanned hd⟩
  | rule n =>
      intro ts rest h
      obtain ⟨taken, hts, more, a, hd⟩ := hstuck n _ _ h
      exact ⟨taken, hts, more, a, .rule hd⟩

/-- What is taken before a rule breaks off is viable, by induction on the depth that is left. -/
theorem parse_rule_breaks_off {firstOf : N → List Terminal} (hprod : Productive rules)
    (depth : Nat) (n : N) : BreaksOff rules (rules n) (parseRule firstOf rules depth n) := by
  induction depth generalizing n with
  | zero =>
      intro ts rest h
      cases h
      exact ⟨[], rfl, hprod n⟩
  | succ depth ih =>
      exact parse_with_breaks_off hprod (parse_rule_sound depth) ih depth (rules n)

/-! ## What was taken cannot be continued with the next token -/

namespace Parsed

/-- The tokens that remain. -/
def rest : Parsed α → List Token
  | .ok _ _ rest => rest
  | .stuck rest => rest

/-- The outcome with other tokens remaining. -/
def withRest (left : List Token) : Parsed α → Parsed α
  | .ok a taken _ => .ok a taken left
  | .stuck _ => .stuck left

theorem rest_map (r : Parsed α) (f : α → β) : (r.map f).rest = r.rest := by
  cases r <;> rfl

theorem rest_spanned (r : Parsed α) : r.spanned.rest = r.rest := by
  cases r <;> rfl

theorem with_rest_map (r : Parsed α) (f : α → β) (left : List Token) :
    (r.map f).withRest left = (r.withRest left).map f := by
  cases r <;> rfl

theorem with_rest_spanned (r : Parsed α) (left : List Token) :
    r.spanned.withRest left = (r.withRest left).spanned := by
  cases r <;> rfl

theorem rest_with_rest (r : Parsed α) (left : List Token) : (r.withRest left).rest = left := by
  cases r <;> rfl

theorem rest_and_then (a : α) (us mid : List Token) (next : α → List Token → Parsed β) :
    ((Parsed.ok a us mid).andThen next).rest = (next a mid).rest := by
  rw [andThen]
  cases next a mid <;> rfl

/-- The outcome of a reading in front of `y` is that of another one in front of `x`, unless this
one goes into `x`. -/
def Agree (x y : List Token) (r r' : Parsed α) : Prop :=
  ∀ left, r.rest = left ++ x → r' = r.withRest (left ++ y)

variable {x y : List Token} {r r' : Parsed α}

/-- What is made of results that agree agrees. -/
theorem Agree.map (h : Agree x y r r') (f : α → β) : Agree x y (r.map f) (r'.map f) := by
  intro left hleft
  rw [with_rest_map, h left (r.rest_map f ▸ hleft)]

/-- Results that agree still do with their regions. -/
theorem Agree.spanned (h : Agree x y r r') : Agree x y r.spanned r'.spanned := by
  intro left hleft
  rw [with_rest_spanned, h left (r.rest_spanned ▸ hleft)]

/-- Readings agree one behind the other, as what the first one took is not given back. -/
theorem Agree.and_then {next next' : α → List Token → Parsed β} (h : Agree x y r r')
    (hback : ∀ a mid, ∃ taken, mid = taken ++ (next a mid).rest)
    (hnext : ∀ a us left, r = .ok a us (left ++ x) →
      Agree x y (next a (left ++ x)) (next' a (left ++ y))) :
    Agree x y (r.andThen next) (r'.andThen next') := by
  intro left hleft
  cases r with
  | stuck mid =>
      rw [h left hleft]
      rfl
  | ok a us mid =>
      rw [rest_and_then] at hleft
      obtain ⟨taken, hmid⟩ := hback a mid
      rw [hleft, ← List.append_assoc] at hmid
      subst hmid
      rw [h _ rfl, withRest, andThen, andThen, hnext a us _ rfl left hleft]
      cases next a (taken ++ left ++ x) <;> rfl

end Parsed

/-- What a reader leaves is the end of what it was given. -/
theorem exists_taken {g : Gram ρ α} {read : List Token → Parsed α}
    (hread : ReadsFrom rules g read) (hstuck : BreaksOff rules g read) (ts : List Token) :
    ∃ taken, ts = taken ++ (read ts).rest := by
  cases h : read ts with
  | ok a taken rest => exact ⟨taken, (hread _ _ _ _ h).1⟩
  | stuck rest =>
      obtain ⟨taken, hts, -⟩ := hstuck _ _ h
      exact ⟨taken, hts⟩

namespace Lookahead

variable (look : Lookahead rules)

/-- Two ways to read the named rules agree in front of `x` and `y`, as far as `budget` allows. -/
def AgreeRules (x y : List Token) (budget : Nat)
    (readRule readRule' : (n : N) → List Token → Parsed (ρ n)) : Prop :=
  ∀ n ts, 2 * (ts.length + 1) + look.rank n < budget →
    Parsed.Agree x y (readRule n (ts ++ x)) (readRule' n (ts ++ y))

variable {look} {budget limit limit' : Nat} {tok : Token} {x y : List Token}
  {readRule readRule' : (n : N) → List Token → Parsed (ρ n)}

/-- Whether a form may start is decided by the first token. -/
theorem starts_with_append (terminals : List Terminal) (ts x y : List Token) :
    startsWith terminals (ts ++ tok :: x) = startsWith terminals (ts ++ tok :: y) := by
  cases ts <;> rfl

/-- Repetitions agree in front of two texts that go on with the same token, if their parts do. -/
theorem repeat_while_agrees {p : Gram ρ α} {read read' : List Token → Parsed α}
    (hne : ∀ us a, Derives rules p us a → us ≠ []) (hread : ReadsFrom rules p read)
    (hstuck : BreaksOff rules p read) (terminals : List Terminal) (hlimit : ts.length < limit)
    (hlimit' : ts.length < limit')
    (hagree : ∀ us, us.length ≤ ts.length →
      Parsed.Agree (tok :: x) (tok :: y) (read (us ++ tok :: x)) (read' (us ++ tok :: y))) :
    Parsed.Agree (tok :: x) (tok :: y) (repeatWhile terminals read limit (ts ++ tok :: x))
      (repeatWhile terminals read' limit' (ts ++ tok :: y)) := by
  induction limit generalizing ts limit' with
  | zero => omega
  | succ limit ih =>
      obtain ⟨limit', rfl⟩ := Nat.exists_eq_succ_of_ne_zero (Nat.ne_zero_of_lt hlimit')
      rw [repeatWhile, repeatWhile, starts_with_append terminals ts x y]
      split
      · have hmany := fun us => exists_taken (hread.repeat_while terminals limit)
          (hstuck.repeat_while hread terminals limit) us
        refine (hagree ts (Nat.le_refl _)).and_then (fun a mid => ?_) fun a us left ha => ?_
        · rw [Parsed.rest_map]
          exact hmany mid
        · obtain ⟨hts, hp⟩ := hread _ _ _ _ ha
          rw [← List.append_assoc, List.append_cancel_right_eq] at hts
          have hus := List.length_pos_iff.mpr (hne us a hp)
          have hlength : ts.length = us.length + left.length := by
            rw [hts, List.length_append]
          exact (ih (by omega) (by omega) fun vs hvs => hagree vs (by omega)).map _
      · intro left hleft
        obtain rfl := List.append_cancel_right hleft
        rfl

/-- A terminal is read alike, as it takes the first of the common tokens or nothing. -/
theorem parse_token_agrees {t : Terminal} :
    Parsed.Agree (tok :: x) (tok :: y)
      (Gram.parseWith look.firstOf readRule limit (.token t) (ts ++ tok :: x))
      (Gram.parseWith look.firstOf readRule' limit' (.token t) (ts ++ tok :: y)) := by
  intro left hleft
  cases ts with
  | nil =>
      simp only [List.nil_append, parseWith] at hleft ⊢
      split at hleft
      · have := congrArg List.length hleft
        simp [Parsed.rest] at this
        omega
      · next ht =>
        obtain rfl : left = [] := List.self_eq_append_left.mp hleft
        rw [if_neg ht, if_neg ht]
        rfl
  | cons head ts =>
      simp only [List.cons_append, parseWith] at hleft ⊢
      split at hleft
      · next ht =>
        obtain rfl := List.append_cancel_right hleft
        rw [if_pos ht, if_pos ht]
        rfl
      · next ht =>
        obtain rfl : head :: ts = left :=
          List.append_cancel_right (show head :: ts ++ tok :: x = left ++ tok :: x from hleft)
        rw [if_neg ht, if_neg ht]
        rfl

/-- A sequence is read alike if its first part is, and its second part on what the first one
leaves. -/
theorem parse_seq_agrees (hprod : Productive rules)
    (hread : ∀ n, ReadsFrom rules (rules n) (readRule n))
    (hstuck : ∀ n, BreaksOff rules (rules n) (readRule n)) {p : Gram ρ α} {q : Gram ρ β}
    (hp : Parsed.Agree (tok :: x) (tok :: y)
      (p.parseWith look.firstOf readRule limit (ts ++ tok :: x))
      (p.parseWith look.firstOf readRule' limit' (ts ++ tok :: y)))
    (hq : ∀ us left a, ts = us ++ left → Derives rules p us a →
      Parsed.Agree (tok :: x) (tok :: y)
        (q.parseWith look.firstOf readRule limit (left ++ tok :: x))
        (q.parseWith look.firstOf readRule' limit' (left ++ tok :: y))) :
    Parsed.Agree (tok :: x) (tok :: y)
      (Gram.parseWith look.firstOf readRule limit (.seq p q) (ts ++ tok :: x))
      (Gram.parseWith look.firstOf readRule' limit' (.seq p q) (ts ++ tok :: y)) := by
  refine hp.and_then (fun a mid => ?_) fun a us left ha => ?_
  · rw [Parsed.rest_map]
    exact exists_taken (parse_with_sound hread limit q)
      (parse_with_breaks_off hprod hread hstuck limit q) mid
  · obtain ⟨hts, hd⟩ := parse_with_sound hread limit p _ _ _ _ ha
    rw [← List.append_assoc, List.append_cancel_right_eq] at hts
    exact (hq us left a hts hd).map _

/-- What suffices for a sequence suffices for its second part on what the first one leaves: behind
at least one token, any reference fits into the budget. -/
theorem budget_behind {p : Gram ρ α} {q : Gram ρ β} {us left : List Token} {a : α}
    (hd : Derives rules p us a)
    (hbudget : 2 * ((us ++ left).length + 1) + (Gram.seq p q).lead look.rank ≤ budget) :
    2 * (left.length + 1) + q.lead look.rank ≤ budget := by
  rw [List.length_append] at hbudget
  cases us with
  | nil =>
      rw [lead, (look.head_mem_first hd).1 rfl, if_pos rfl] at hbudget
      rw [List.length_nil] at hbudget
      omega
  | cons head us =>
      have := look.lead_le_two q
      rw [List.length_cons] at hbudget
      omega

/-- Two readings of a predictive grammar agree up to the next token, if both go deep enough. -/
theorem parse_with_agrees (hprod : Productive rules)
    (hread : ∀ n, ReadsFrom rules (rules n) (readRule n))
    (hstuck : ∀ n, BreaksOff rules (rules n) (readRule n))
    (hrules : look.AgreeRules (tok :: x) (tok :: y) budget readRule readRule') {g : Gram ρ α}
    {follow : List Terminal} (hpred : g.predictive look.firstOf look.followOf follow = true)
    (hlimit : ts.length < limit) (hlimit' : ts.length < limit')
    (hbudget : 2 * (ts.length + 1) + g.lead look.rank ≤ budget) :
    Parsed.Agree (tok :: x) (tok :: y)
      (g.parseWith look.firstOf readRule limit (ts ++ tok :: x))
      (g.parseWith look.firstOf readRule' limit' (ts ++ tok :: y)) := by
  induction g generalizing ts follow with
  | token t => exact look.parse_token_agrees
  | done a =>
      intro left hleft
      obtain rfl := List.append_cancel_right hleft
      rfl
  | seq p q hp hq =>
      simp only [Gram.predictive, Bool.and_eq_true] at hpred
      have hfront : 2 * (ts.length + 1) + p.lead look.rank ≤ budget := by
        have := Nat.le_max_left (p.lead look.rank) (if p.nullable then q.lead look.rank else 0)
        rw [lead] at hbudget
        omega
      refine look.parse_seq_agrees hprod hread hstuck (hp hpred.1 hlimit hlimit' hfront) ?_
      rintro us left a rfl hd
      rw [List.length_append] at hlimit hlimit'
      exact hq hpred.2 (by omega) (by omega) (look.budget_behind hd hbudget)
  | choice p q hp hq =>
      simp only [Gram.predictive, Bool.and_eq_true] at hpred
      rw [lead] at hbudget
      rw [parseWith, parseWith, starts_with_append _ ts x y]
      split
      · exact hp hpred.1.2 hlimit hlimit' (by omega)
      · exact hq hpred.2 hlimit hlimit' (by omega)
  | many p hp =>
      simp only [Gram.predictive, Bool.and_eq_true, Bool.not_eq_true'] at hpred
      rw [lead] at hbudget
      exact repeat_while_agrees (fun us a hd => look.ne_nil_of_derives hd hpred.1.1)
        (parse_with_sound hread limit p)
        (parse_with_breaks_off hprod hread hstuck limit p) _ hlimit hlimit'
        fun us hus => hp hpred.2 (by omega) (by omega) (by omega)
  | map f p hp => exact (hp hpred hlimit hlimit' hbudget).map f
  | spanned p hp => exact (hp hpred hlimit hlimit' hbudget).spanned
  | rule n => exact hrules n ts hbudget

/-- With enough depth, the readings of the rules agree in front of two texts that go on with the same
token. -/
theorem parse_rule_agrees (hprod : Productive rules) {depth depth' : Nat}
    (hdepth : budget ≤ depth + 1) (hdepth' : budget ≤ depth' + 1) :
    look.AgreeRules (tok :: x) (tok :: y) budget (parseRule look.firstOf rules depth)
      (parseRule look.firstOf rules depth') := by
  induction depth generalizing budget depth' with
  | zero =>
      intro n ts hlt
      omega
  | succ depth ih =>
      intro n ts hlt
      obtain ⟨depth', rfl⟩ : ∃ m, depth' = m + 1 := ⟨depth' - 1, by omega⟩
      have hlead := look.lead_le n
      have hrules : look.AgreeRules (tok :: x) (tok :: y) (budget - 1)
          (parseRule look.firstOf rules depth) (parseRule look.firstOf rules depth') :=
        ih (by omega) (by omega)
      exact parse_with_agrees hprod (parse_rule_sound depth) (parse_rule_breaks_off hprod depth)
        hrules (look.predictive n) (by omega) (by omega) (by omega)

end Lookahead

/-- Reading as deep as `Gram.parse` goes for `count` tokens. -/
def readFor (firstOf : N → List Terminal) (rules : (n : N) → Gram ρ (ρ n)) (g : Gram ρ α)
    (count : Nat) (ts : List Token) : Parsed α :=
  g.parseWith firstOf (parseRule firstOf rules (depthFor count)) (depthFor count) ts

variable {firstOf : N → List Terminal} {g : Gram ρ α}

/-- Where tokens are accepted, none of them are left. -/
theorem rest_of_parse_eq_ok {a : α} (h : parse firstOf rules g ts = .ok a) :
    (g.readFor firstOf rules ts.length ts).rest = [] := by
  rw [parse] at h
  split at h
  · next hparse => exact congrArg Parsed.rest hparse
  · cases h
  · cases h

/-- Where not all tokens can be read, those in front of what is left are viable. -/
theorem rest_of_parse_eq_error (hprod : Productive rules)
    (h : parse firstOf rules g ts = .error left) :
    (g.readFor firstOf rules ts.length ts).rest = left ∧
      ∃ taken, ts = taken ++ left ∧ Viable rules g taken := by
  rw [parse] at h
  split at h
  · cases h
  · next a taken rest _ hparse =>
    cases h
    obtain ⟨hts, hd⟩ := parse_with_sound (parse_rule_sound _) _ g _ _ _ _ hparse
    exact ⟨congrArg Parsed.rest hparse, taken, hts, .of_derives hd⟩
  · next hparse =>
    cases h
    exact ⟨congrArg Parsed.rest hparse, parse_with_breaks_off hprod (parse_rule_sound _)
      (parse_rule_breaks_off hprod _) _ g _ _ hparse⟩

namespace Lookahead

variable {look : Lookahead rules} {tok : Token} {x y : List Token}

/-- With enough depth, readings of a form agree in front of two texts that go on with the same
token. -/
theorem read_for_agrees (hprod : Productive rules)
    (hpred : g.predictive look.firstOf look.followOf [] = true) {count count' : Nat}
    (hcount : ts.length < count) (hcount' : ts.length < count') :
    Parsed.Agree (tok :: x) (tok :: y) (g.readFor look.firstOf rules count (ts ++ tok :: x))
      (g.readFor look.firstOf rules count' (ts ++ tok :: y)) := by
  have hlead := look.lead_le_two g
  have hdepth (n : Nat) (hn : ts.length < n) :
      ts.length < depthFor n ∧ 2 * (ts.length + 1) + g.lead look.rank ≤ depthFor n + 1 := by
    rw [depthFor]
    omega
  obtain ⟨hlimit, hbudget⟩ := hdepth count hcount
  obtain ⟨hlimit', hbudget'⟩ := hdepth count' hcount'
  have hrules : look.AgreeRules (tok :: x) (tok :: y)
      (min (depthFor count + 1) (depthFor count' + 1))
      (parseRule look.firstOf rules (depthFor count))
      (parseRule look.firstOf rules (depthFor count')) :=
    parse_rule_agrees hprod (Nat.min_le_left _ _) (Nat.min_le_right _ _)
  exact parse_with_agrees hprod (parse_rule_sound _) (parse_rule_breaks_off hprod _) hrules hpred
    hlimit hlimit' (Nat.le_min.mpr ⟨hbudget, hbudget'⟩)

/-- Where not all tokens can be read, those that were taken are viable, and they no longer are
together with the next token. -/
theorem parse_eq_error (hprod : Productive rules)
    (hpred : g.predictive look.firstOf look.followOf [] = true)
    (h : parse look.firstOf rules g ts = .error left) :
    ∃ taken, ts = taken ++ left ∧ Viable rules g taken ∧
      ∀ tok rest, left = tok :: rest → ¬ Viable rules g (taken ++ [tok]) := by
  obtain ⟨hrest, taken, hts, hviable⟩ := rest_of_parse_eq_error hprod h
  refine ⟨taken, hts, hviable, ?_⟩
  rintro tok rest rfl ⟨more, a, hd⟩
  rw [List.append_assoc, List.singleton_append] at hd
  -- what is derived is read to the end, but the reading that failed stops at `tok` with it
  have hall := rest_of_parse_eq_ok ((parse_eq_ok_iff hpred).mpr hd)
  have hagree : Parsed.Agree (tok :: rest) (tok :: more)
      (g.readFor look.firstOf rules ts.length (taken ++ tok :: rest))
      (g.readFor look.firstOf rules (taken ++ tok :: more).length (taken ++ tok :: more)) :=
    read_for_agrees hprod hpred (by simp [hts]) (by simp)
  rw [hagree [] (hts ▸ hrest), Parsed.rest_with_rest] at hall
  cases hall

end Lookahead

end MirAudit.Source.Gram

namespace MirAudit.Source

open Gram Reference

/-! ## Source texts -/

/-- Every rule of the syntax derives something. -/
theorem productive_definition : Productive Syntax.definition := by
  intro n
  cases n with
  | ty =>
      let bang : Token := ⟨.mark .bang, [], {}, {}⟩
      have hnever : Derives Syntax.definition ((Syntax.mark .bang).giving .never) [bang]
          TypeTree.never :=
        derives_giving_iff.mpr ⟨⟨bang, .token bang⟩, rfl⟩
      exact ⟨_, _, .right (.right (.right (.right (.left hnever))))⟩
  | path =>
      let name : Token := ⟨.name, [], {}, {}⟩
      have hsegment : Derives Syntax.definition Syntax.segment [name] (.name name.string) :=
        .left (.map (.token name))
      exact ⟨_, _, derives_separated_iff.mpr ⟨_, _, _, _, rfl, hsegment, .manyNil, rfl⟩⟩

/-- Where the tokens of a text cannot all be read, those in front of what is left are viable, and
they no longer are together with the next token. -/
theorem read_items_eq_error {ts left : List Token} (h : Syntax.readItems ts = .error left) :
    ∃ taken, ts = taken ++ left ∧ Viable definition program taken ∧
      ∀ tok rest, left = tok :: rest → ¬ Viable definition program (taken ++ [tok]) := by
  have hviable (us : List Token) :
      Viable definition program us ↔ Viable Syntax.definition Syntax.program us :=
    exists₂_congr fun _ _ => derives_program_iff
  simp only [hviable]
  exact lookahead.parse_eq_error productive_definition (by decide) h

/-- The syntax fault of a text is placed behind a viable beginning of its tokens that is not viable
with the next token, if there is one. -/
theorem exists_syntax_fault {text : List Char} {fault : Located}
    (h : readText text = .error fault) : ∃ taken left, (Lexed.ofText text).tokens = taken ++ left ∧
      fault = syntaxFault (Lexed.ofText text) left ∧ Viable definition program taken ∧
      ∀ tok rest, left = tok :: rest → ¬ Viable definition program (taken ++ [tok]) := by
  rw [readText] at h
  cases hread : Syntax.readItems (Lexed.ofText text).tokens with
  | error left =>
      rw [hread] at h
      cases h
      obtain ⟨taken, hts, hviable, hnext⟩ := read_items_eq_error hread
      exact ⟨taken, left, hts, rfl, hviable, hnext⟩
  | ok items =>
      rw [hread] at h
      have hviable := Viable.of_derives (read_items_eq_ok_iff.mp hread)
      refine ⟨_, [], (List.append_nil _).symm, ?_, hviable, fun tok rest hnil => ?_⟩
      · dsimp only at h
        split at h <;> cases h
        rfl
      · cases hnil

/-- A text that is rejected though all of its characters belong to tokens has a token. -/
theorem tokens_ne_nil {text : List Char} {fault : Located} (h : readText text = .error fault)
    (hending : (Lexed.ofText text).ending = .endOfText) : (Lexed.ofText text).tokens ≠ [] := by
  intro hnil
  have hread : readText text = .ok [] := read_text_eq_ok.mpr ⟨hending, hnil ▸ .manyNil⟩
  rw [h] at hread
  cases hread

/-- A text is rejected for its syntax at the first place at which it cannot be continued. Take its
tokens up to the first character at which none starts. If some of their beginnings are not viable,
the last token of the shortest of these is unexpected; else that character is, if there is one; and
else the end of the text, which is placed at the last token. -/
theorem syntax_fault_of_text (text : List Char) (fault : Located)
    (h : readText text = .error fault) :
    let ts := (Lexed.ofText text).tokens
    ((∃ k ≤ ts.length, ¬ Viable definition program (ts.take k)) →
      ∃ k tok, ts[k]? = some tok ∧ ¬ Viable definition program (ts.take (k + 1)) ∧
        (∀ j ≤ k, Viable definition program (ts.take j)) ∧
        fault = (LoadFault.unexpectedToken tok).startingAt tok.start) ∧
      ((∀ k ≤ ts.length, Viable definition program (ts.take k)) →
        match (Lexed.ofText text).ending with
        | .badChar c place => fault = (LoadFault.unexpectedChar c).startingAt place
        | .endOfText => ∃ last, ts.getLast? = some last ∧
            fault = LoadFault.unexpectedEnd.startingAt last.start) := by
  intro ts
  obtain ⟨taken, left, hts, hfault, hviable, hnext⟩ := exists_syntax_fault h
  replace hts : ts = taken ++ left := hts
  have htake (j : Nat) (hj : j ≤ taken.length) : Viable definition program (ts.take j) := by
    rw [hts, List.take_append_of_le_length hj]
    rw [← List.take_append_drop j taken] at hviable
    exact hviable.of_append
  cases left with
  | cons tok rest =>
      have hstuck : ¬ Viable definition program (ts.take (taken.length + 1)) := by
        have hsplit : ts.take (taken.length + 1) = taken ++ [tok] := by
          rw [hts, List.take_length_add_append]
          rfl
        exact hsplit ▸ hnext tok rest rfl
      refine ⟨fun _ => ⟨taken.length, tok, by simp [hts], hstuck, htake, hfault⟩, fun hall => ?_⟩
      exact absurd (hall _ (by simp [hts])) hstuck
  | nil =>
      rw [List.append_nil] at hts
      have hall (k : Nat) (hk : k ≤ ts.length) : Viable definition program (ts.take k) :=
        htake k (hts ▸ hk)
      refine ⟨fun ⟨k, hk, hnot⟩ => absurd (hall k hk) hnot, fun _ => ?_⟩
      unfold syntaxFault at hfault
      cases hending : (Lexed.ofText text).ending with
      | badChar c place =>
          rw [hending] at hfault
          exact hfault
      | endOfText =>
          have hlast := List.getLast?_eq_some_getLast (tokens_ne_nil h hending)
          rw [hending, hlast] at hfault
          exact ⟨_, hlast, hfault⟩

/-- A struct without semicolon, in front of a character that belongs to no token. -/
def openStructText : String :=
  "struct S
fn ?"

set_option maxRecDepth 20000 in
/-- The text is rejected at the word behind the struct, with which no item goes on, and not at the
character behind it. -/
theorem syntax_fault_of_open_struct :
    ∃ fault, readText openStructText.toList = .error fault ∧ fault.start = ⟨2, 1⟩ ∧
      ∃ k tok, (Lexed.ofText openStructText.toList).tokens[k]? = some tok ∧
        ¬ Viable definition program ((Lexed.ofText openStructText.toList).tokens.take (k + 1)) ∧
        fault = (LoadFault.unexpectedToken tok).startingAt tok.start := by
  let atToken (fault : Located) : Bool :=
    fault.start == ⟨2, 1⟩ && match fault.fault with | .unexpectedToken _ => true | _ => false
  have htest : (match readText openStructText.toList with
      | .ok _ => false
      | .error fault => atToken fault) = true :=
    Outcome.test_of_chars (f := fun text =>
      match readText text with | .ok _ => false | .error fault => atToken fault) (by decide +kernel)
  cases hread : readText openStructText.toList with
  | ok items =>
      rw [hread] at htest
      cases htest
  | error fault =>
      rw [hread] at htest
      obtain ⟨hstart, htoken⟩ := Bool.and_eq_true_iff.mp htest
      obtain ⟨hbroken, hviable⟩ := syntax_fault_of_text openStructText.toList fault hread
      refine ⟨fault, rfl, beq_iff_eq.mp hstart, ?_⟩
      by_cases hall : ∀ k ≤ (Lexed.ofText openStructText.toList).tokens.length,
          Viable definition program ((Lexed.ofText openStructText.toList).tokens.take k)
      · replace hviable := hviable hall
        cases hending : (Lexed.ofText openStructText.toList).ending with
        | badChar c place =>
            rw [hending] at hviable
            obtain rfl := hviable
            cases htoken
        | endOfText =>
            rw [hending] at hviable
            obtain ⟨last, -, rfl⟩ := hviable
            cases htoken
      · simp only [not_forall] at hall
        obtain ⟨k, hk, hnot⟩ := hall
        obtain ⟨k, tok, htok, hnot, -, hfault⟩ := hbroken ⟨k, hk, hnot⟩
        exact ⟨k, tok, htok, hnot, hfault⟩

end MirAudit.Source
