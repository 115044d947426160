import Mathlib.Data.List.Forall2
import MirAudit.Source.Grammar

/-!
# Derivations

`Gram.Yields` reads off the outermost form of a grammar what the grammar derives, and
`derives_iff_yields` says that this is all. The lemmas `derives_…_iff` follow from it, one for each
way in which grammars are put together. `Gram.Derivation` is the type of the derivation trees of a
grammar: `derives_iff_derivation`.
-/

namespace MirAudit.Source.Gram

variable {N : Type} {ρ : N → Type} {rules : (n : N) → Gram ρ (ρ n)} {α β : Type}
  {ts : List Token}

/-! ## What a grammar derives -/

/-- What a grammar derives, by its outermost form. -/
def Yields (rules : (n : N) → Gram ρ (ρ n)) : {α : Type} → Gram ρ α → List Token → α → Prop
  | _, .token t, ts, tok => ts = [tok] ∧ tok.terminal = t
  | _, .done b, ts, a => ts = [] ∧ a = b
  | _, .seq p q, ts, ab =>
    ∃ us vs, ts = us ++ vs ∧ Derives rules p us ab.1 ∧ Derives rules q vs ab.2
  | _, .choice p q, ts, a => Derives rules p ts a ∨ Derives rules q ts a
  | _, .many p, ts, as =>
    (ts = [] ∧ as = []) ∨
      ∃ us vs b bs, ts = us ++ vs ∧ as = b :: bs ∧
        Derives rules p us b ∧ Derives rules (.many p) vs bs
  | _, .map f p, ts, b => ∃ a, Derives rules p ts a ∧ f a = b
  | _, .spanned p, ts, a => Derives rules p ts a.value ∧ a.region = Region.ofTokens ts
  | _, .rule n, ts, a => Derives rules (rules n) ts a

/-- A grammar derives what it yields, form by form. -/
theorem derives_iff_yields {g : Gram ρ α} {a : α} :
    Derives rules g ts a ↔ g.Yields rules ts a := by
  constructor
  · intro h
    cases h with
    | token tok => exact ⟨rfl, rfl⟩
    | done a => exact ⟨rfl, rfl⟩
    | seq hp hq => exact ⟨_, _, rfl, hp, hq⟩
    | left hp => exact Or.inl hp
    | right hq => exact Or.inr hq
    | manyNil => exact Or.inl ⟨rfl, rfl⟩
    | manyCons hp hrest => exact Or.inr ⟨_, _, _, _, rfl, rfl, hp, hrest⟩
    | map hp => exact ⟨_, hp, rfl⟩
    | spanned hp => exact ⟨hp, rfl⟩
    | rule h => exact h
  · intro h
    cases g with
    | token t =>
        obtain ⟨rfl, rfl⟩ := h
        exact .token a
    | done b =>
        obtain ⟨rfl, rfl⟩ := h
        exact .done a
    | seq p q =>
        obtain ⟨us, vs, rfl, hp, hq⟩ := h
        exact .seq hp hq
    | choice p q =>
        rcases h with hp | hq
        · exact .left hp
        · exact .right hq
    | many p =>
        obtain ⟨rfl, rfl⟩ | ⟨us, vs, b, bs, rfl, rfl, hp, hrest⟩ := h
        · exact .manyNil
        · exact .manyCons hp hrest
    | map f p =>
        obtain ⟨b, hp, rfl⟩ := h
        exact .map hp
    | spanned p =>
        obtain ⟨hp, hregion⟩ := h
        have hspanned := Derives.spanned hp
        rwa [← hregion] at hspanned
    | rule n => exact .rule h

/-- A terminal derives one token of its own. -/
theorem derives_token_iff {t : Terminal} {tok : Token} :
    Derives rules (.token t) ts tok ↔ ts = [tok] ∧ tok.terminal = t :=
  derives_iff_yields

/-- A sequence derives what its parts derive from two parts of the tokens. -/
theorem derives_seq_iff {p : Gram ρ α} {q : Gram ρ β} {a : α} {b : β} :
    Derives rules (.seq p q) ts (a, b) ↔
      ∃ us vs, ts = us ++ vs ∧ Derives rules p us a ∧ Derives rules q vs b :=
  derives_iff_yields

/-- A choice derives what either part derives. -/
theorem derives_choice_iff {p q : Gram ρ α} {a : α} :
    Derives rules (p <|> q) ts a ↔ Derives rules p ts a ∨ Derives rules q ts a :=
  derives_iff_yields

/-- A function is applied to what the part derives. -/
theorem derives_map_iff {f : α → β} {p : Gram ρ α} {b : β} :
    Derives rules (f <$> p) ts b ↔ ∃ a, Derives rules p ts a ∧ f a = b :=
  derives_iff_yields

/-- The span of a value covers the tokens it is derived from. -/
theorem derives_spanned_iff {p : Gram ρ α} {a : Spanned α} :
    Derives rules (.spanned p) ts a ↔
      Derives rules p ts a.value ∧ a.region = Region.ofTokens ts :=
  derives_iff_yields

/-- A named rule derives what its definition derives. -/
theorem derives_rule_iff {n : N} {a : ρ n} :
    Derives rules (.rule n) ts a ↔ Derives rules (rules n) ts a :=
  derives_iff_yields

/-- A value of its own is derived from no token. -/
theorem derives_pure_iff {a b : α} :
    Derives rules (pure b : Gram ρ α) ts a ↔ ts = [] ∧ a = b :=
  derives_iff_yields

/-- A fixed value is derived where the part derives anything. -/
theorem derives_giving_iff {p : Gram ρ α} {b c : β} :
    Derives rules (p.giving b) ts c ↔ (∃ a, Derives rules p ts a) ∧ b = c := by
  rw [giving, derives_iff_yields, Yields, exists_and_right]

/-- A function that is derived, applied to what is derived behind it. -/
theorem derives_ap_iff {p : Gram ρ (α → β)} {q : Gram ρ α} {b : β} :
    Derives rules (p <*> q) ts b ↔
      ∃ us vs f a, ts = us ++ vs ∧ Derives rules p us f ∧ Derives rules q vs a ∧ f a = b := by
  show Derives rules (.map (fun fa => fa.1 fa.2) (.seq p q)) ts b ↔ _
  simp only [derives_iff_yields (g := .map _ _), Yields, Prod.exists, derives_seq_iff]
  constructor
  · intro h
    obtain ⟨f, a, ⟨us, vs, hts, hp, hq⟩, hb⟩ := h
    exact ⟨us, vs, f, a, hts, hp, hq, hb⟩
  · intro h
    obtain ⟨us, vs, f, a, hts, hp, hq, hb⟩ := h
    exact ⟨f, a, ⟨us, vs, hts, hp, hq⟩, hb⟩

/-- Of two parts only what the first derives is kept. -/
theorem derives_seq_left_iff {p : Gram ρ α} {q : Gram ρ β} {a : α} :
    Derives rules (p <* q) ts a ↔
      ∃ us vs b, ts = us ++ vs ∧ Derives rules p us a ∧ Derives rules q vs b := by
  show Derives rules (.map Prod.fst (.seq p q)) ts a ↔ _
  simp only [derives_iff_yields (g := .map _ _), Yields, Prod.exists, derives_seq_iff]
  constructor
  · intro h
    obtain ⟨_, b, ⟨us, vs, hts, hp, hq⟩, rfl⟩ := h
    exact ⟨us, vs, b, hts, hp, hq⟩
  · intro h
    obtain ⟨us, vs, b, hts, hp, hq⟩ := h
    exact ⟨a, b, ⟨us, vs, hts, hp, hq⟩, rfl⟩

/-- Of two parts only what the second derives is kept. -/
theorem derives_seq_right_iff {p : Gram ρ α} {q : Gram ρ β} {b : β} :
    Derives rules (p *> q) ts b ↔
      ∃ us vs a, ts = us ++ vs ∧ Derives rules p us a ∧ Derives rules q vs b := by
  show Derives rules (.map Prod.snd (.seq p q)) ts b ↔ _
  simp only [derives_iff_yields (g := .map _ _), Yields, Prod.exists, derives_seq_iff]
  constructor
  · intro h
    obtain ⟨a, _, ⟨us, vs, hts, hp, hq⟩, rfl⟩ := h
    exact ⟨us, vs, a, hts, hp, hq⟩
  · intro h
    obtain ⟨us, vs, a, hts, hp, hq⟩ := h
    exact ⟨a, b, ⟨us, vs, hts, hp, hq⟩, rfl⟩

/-- A repetition derives the tokens of its members one after another. -/
theorem derives_many_iff {p : Gram ρ α} {as : List α} :
    Derives rules (.many p) ts as ↔
      ∃ parts, List.Forall₂ (Derives rules p) parts as ∧ ts = parts.flatten := by
  constructor
  · intro h
    induction as generalizing ts with
    | nil =>
        obtain ⟨rfl, -⟩ | ⟨us, vs, b, bs, -, hcons, -⟩ := derives_iff_yields.mp h
        · exact ⟨[], .nil, rfl⟩
        · cases hcons
    | cons a as ih =>
        obtain ⟨-, hnil⟩ | ⟨us, vs, b, bs, rfl, hcons, hp, hrest⟩ := derives_iff_yields.mp h
        · cases hnil
        · cases hcons
          obtain ⟨parts, hparts, rfl⟩ := ih hrest
          exact ⟨us :: parts, .cons hp hparts, rfl⟩
  · intro h
    obtain ⟨parts, hparts, rfl⟩ := h
    induction hparts with
    | nil => exact .manyNil
    | cons hp _ ih => exact .manyCons hp ih

/-- Rules that derive no more than other rules do give grammars that derive no more. -/
theorem Derives.of_rules {rules' : (n : N) → Gram ρ (ρ n)}
    (hrules : ∀ n ts a, Derives rules' (rules n) ts a → Derives rules' (rules' n) ts a)
    {g : Gram ρ α} {a : α} (h : Derives rules g ts a) : Derives rules' g ts a := by
  induction h with
  | token tok => exact .token tok
  | done a => exact .done a
  | seq _ _ hp hq => exact .seq hp hq
  | left _ hp => exact .left hp
  | right _ hq => exact .right hq
  | manyNil => exact .manyNil
  | manyCons _ _ hp hrest => exact .manyCons hp hrest
  | map _ hp => exact .map hp
  | spanned _ hp => exact .spanned hp
  | rule _ h => exact .rule (hrules _ _ _ h)

/-! ## Derivation trees -/

/-- How a grammar derives tokens: the derivation of each part, and the side of each choice. -/
inductive Derivation (rules : (n : N) → Gram ρ (ρ n)) : {α : Type} → Gram ρ α → Type 1 where
  | token {t : Terminal} (tok : Token) (terminal_eq : tok.terminal = t) : Derivation rules (.token t)
  | done {α : Type} (a : α) : Derivation rules (.done a)
  | seq {α β : Type} {p : Gram ρ α} {q : Gram ρ β} :
      Derivation rules p → Derivation rules q → Derivation rules (.seq p q)
  | left {α : Type} {p q : Gram ρ α} : Derivation rules p → Derivation rules (.choice p q)
  | right {α : Type} {p q : Gram ρ α} : Derivation rules q → Derivation rules (.choice p q)
  | manyNil {α : Type} {p : Gram ρ α} : Derivation rules (.many p)
  | manyCons {α : Type} {p : Gram ρ α} :
      Derivation rules p → Derivation rules (.many p) → Derivation rules (.many p)
  | map {α β : Type} {f : α → β} {p : Gram ρ α} :
      Derivation rules p → Derivation rules (.map f p)
  | spanned {α : Type} {p : Gram ρ α} : Derivation rules p → Derivation rules (.spanned p)
  | rule {n : N} : Derivation rules (rules n) → Derivation rules (.rule n)

namespace Derivation

/-- The tokens that are derived. -/
def yield : {α : Type} → {g : Gram ρ α} → Derivation rules g → List Token
  | _, _, token tok _ => [tok]
  | _, _, done _ => []
  | _, _, seq d e => d.yield ++ e.yield
  | _, _, left d => d.yield
  | _, _, right d => d.yield
  | _, _, manyNil => []
  | _, _, manyCons d e => d.yield ++ e.yield
  | _, _, map d => d.yield
  | _, _, spanned d => d.yield
  | _, _, rule d => d.yield

/-- The value of a derivation. -/
def value : {α : Type} → {g : Gram ρ α} → Derivation rules g → α
  | _, _, token tok _ => tok
  | _, _, done a => a
  | _, _, seq d e => (d.value, e.value)
  | _, _, left d => d.value
  | _, _, right d => d.value
  | _, _, manyNil => []
  | _, _, manyCons d e => d.value :: e.value
  | _, _, map (f := f) d => f d.value
  | _, _, spanned d => ⟨d.value, Region.ofTokens d.yield⟩
  | _, _, rule d => d.value

end Derivation

/-- A grammar derives tokens exactly if some derivation tree does. -/
theorem derives_iff_derivation {g : Gram ρ α} {a : α} :
    Derives rules g ts a ↔ ∃ d : Derivation rules g, d.yield = ts ∧ d.value = a := by
  constructor
  · intro h
    induction h with
    | token tok => exact ⟨.token tok rfl, rfl, rfl⟩
    | done a => exact ⟨.done a, rfl, rfl⟩
    | seq _ _ hp hq =>
        obtain ⟨d, rfl, rfl⟩ := hp
        obtain ⟨e, rfl, rfl⟩ := hq
        exact ⟨.seq d e, rfl, rfl⟩
    | left _ hp =>
        obtain ⟨d, rfl, rfl⟩ := hp
        exact ⟨.left d, rfl, rfl⟩
    | right _ hq =>
        obtain ⟨d, rfl, rfl⟩ := hq
        exact ⟨.right d, rfl, rfl⟩
    | manyNil => exact ⟨.manyNil, rfl, rfl⟩
    | manyCons _ _ hp hrest =>
        obtain ⟨d, rfl, rfl⟩ := hp
        obtain ⟨e, rfl, rfl⟩ := hrest
        exact ⟨.manyCons d e, rfl, rfl⟩
    | map _ hp =>
        obtain ⟨d, rfl, rfl⟩ := hp
        exact ⟨.map d, rfl, rfl⟩
    | spanned _ hp =>
        obtain ⟨d, rfl, rfl⟩ := hp
        exact ⟨.spanned d, rfl, rfl⟩
    | rule _ h =>
        obtain ⟨d, rfl, rfl⟩ := h
        exact ⟨.rule d, rfl, rfl⟩
  · intro h
    obtain ⟨d, rfl, rfl⟩ := h
    induction d with
    | token tok hterminal => exact derives_token_iff.mpr ⟨rfl, hterminal⟩
    | done a => exact .done a
    | seq _ _ hp hq => exact .seq hp hq
    | left _ hp => exact .left hp
    | right _ hq => exact .right hq
    | manyNil => exact .manyNil
    | manyCons _ _ hp hrest => exact .manyCons hp hrest
    | map _ hp => exact .map hp
    | spanned _ hp => exact .spanned hp
    | rule _ h => exact .rule h

end MirAudit.Source.Gram
