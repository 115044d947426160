import Mathlib.Data.List.Infix
import MirAudit.Proofs.Source.Lookahead
import MirAudit.Source.Syntax

/-!
# Where the parts of a tree stand

Each token in a tree is one of those that the tree is read from, and each region that the grammar
adds takes some of them in a row. `Gram.Situates` carries that through a grammar, one form of grammars
after another, to a predicate of the tree: `Gram.Situates.derives`.
-/

namespace MirAudit.Source

/-- The region of some tokens in a row among the tokens `ts`. -/
def Region.Among (ts : List Token) (r : Region) : Prop :=
  ∃ run, run <:+: ts ∧ run ≠ [] ∧ r = Region.ofTokens run

/-- What stands among tokens in a row stands among all tokens. -/
theorem Region.Among.of_infix {ts us : List Token} {r : Region} (h : r.Among ts)
    (hts : ts <:+: us) : r.Among us := by
  obtain ⟨run, hrun, hne, hr⟩ := h
  exact ⟨run, hrun.trans hts, hne, hr⟩

/-- The token is one of `ts`, and stands for the terminal. -/
structure Token.OneOf (ts : List Token) (t : Terminal) (tok : Token) : Prop where
  mem : tok ∈ ts
  terminal : tok.terminal = t

/-- A token takes a region among the tokens that it is one of. -/
theorem Token.OneOf.among {ts : List Token} {t : Terminal} {tok : Token} (h : tok.OneOf ts t) :
    tok.region.Among ts :=
  ⟨[tok], (List.singleton_infix_iff tok ts).mpr h.mem, List.cons_ne_nil _ _, rfl⟩

namespace Gram

variable {N : Type} {ρ : N → Type} {rules : (n : N) → Gram ρ (ρ n)} {α : Type}

/-- What a grammar yields from some of the tokens `ts` in a row satisfies `R`, if what the named rules
yield satisfies `S`. Its tokens are then among `ts`, and so are the regions that it adds to what is
not empty. -/
def Situates (ts : List Token) (S : (n : N) → ρ n → Prop) :
    {α : Type} → Gram ρ α → (α → Prop) → Prop
  | _, .token t, R => ∀ tok : Token, tok.OneOf ts t → R tok
  | _, .done a, R => R a
  | _, .seq (α := α) (β := β) p q, R =>
    ∃ P : α → Prop, ∃ Q : β → Prop, p.Situates ts S P ∧ q.Situates ts S Q ∧
      ∀ a b, P a → Q b → R (a, b)
  | _, .choice p q, R => p.Situates ts S R ∧ q.Situates ts S R
  | _, .many (α := α) p, R =>
    ∃ P : α → Prop, p.Situates ts S P ∧ ∀ as : List α, (∀ a ∈ as, P a) → R as
  | _, .map (α := α) f p, R => ∃ P : α → Prop, p.Situates ts S P ∧ ∀ a, P a → R (f a)
  | _, .spanned (α := α) p, R =>
    ∃ P : α → Prop, p.Situates ts S P ∧
      ∀ a : Spanned α, (p.nullable = false → a.region.Among ts) → P a.value → R a
  | _, .rule n, R => ∀ a, S n a → R a

/-- What is derived from tokens in a row is situated among them. -/
theorem Situates.derives (table : FirstTable rules) {ts : List Token} {S : (n : N) → ρ n → Prop}
    (hrules : ∀ n, (rules n).Situates ts S (S n)) {g : Gram ρ α} {us : List Token} {a : α}
    {R : α → Prop} (hg : g.Situates ts S R) (hus : us <:+: ts) (h : Derives rules g us a) : R a := by
  induction h with
  | token tok => exact hg tok ⟨hus.subset List.mem_cons_self, rfl⟩
  | done a => exact hg
  | seq _ _ hp hq =>
      obtain ⟨P, Q, hsitp, hsitq, hpair⟩ := hg
      exact hpair _ _ (hp hsitp ((List.prefix_append _ _).isInfix.trans hus))
        (hq hsitq ((List.suffix_append _ _).isInfix.trans hus))
  | left _ hp => exact hp hg.1 hus
  | right _ hq => exact hq hg.2 hus
  | manyNil =>
      obtain ⟨P, -, hlist⟩ := hg
      exact hlist [] nofun
  | manyCons _ _ hp hrest =>
      obtain ⟨P, hsitp, hlist⟩ := hg
      have hhead := hp hsitp ((List.prefix_append _ _).isInfix.trans hus)
      have htail := hrest (R := fun as => ∀ a ∈ as, P a) ⟨P, hsitp, fun _ h => h⟩
        ((List.suffix_append _ _).isInfix.trans hus)
      exact hlist _ (List.forall_mem_cons.mpr ⟨hhead, htail⟩)
  | map _ hp =>
      obtain ⟨P, hsitp, hmap⟩ := hg
      exact hmap _ (hp hsitp hus)
  | spanned hderives hp =>
      obtain ⟨P, hsitp, hspan⟩ := hg
      refine hspan _ (fun hnull => ⟨_, hus, ?_, rfl⟩) (hp hsitp hus)
      exact table.ne_nil_of_derives hderives hnull
  | @rule n _ _ _ hn => exact hg _ (hn (hrules n) hus)

/-! ## Forms of the syntax -/

namespace Situates

variable {α β γ δ ε : Type} {ts : List Token} {S : (n : Syntax.Rule) → n.Tree → Prop}
  {p p' : Syntax.Part α} {q : Syntax.Part β} {r : Syntax.Part γ} {t : Syntax.Part δ} {G : α → Prop}
  {H : β → Prop} {I : γ → Prop} {J : δ → Prop} {L : ε → Prop}

/-- A token is one of the tokens, and stands for its terminal. -/
theorem token (t : Terminal) : Situates ts S (.token t) fun tok => tok.OneOf ts t :=
  fun _ htok => htok

/-- What takes no token yields its value. -/
theorem pure {a : α} (ha : G a) : Situates ts S (Pure.pure a) G :=
  ha

/-- Both parts of a choice yield what satisfies the predicate. -/
theorem choice (hp : Situates ts S p G) (hp' : Situates ts S p' G) : Situates ts S (p <|> p') G :=
  ⟨hp, hp'⟩

/-- A repetition yields a list of what its part yields. -/
theorem many (hp : Situates ts S p G) : Situates ts S (.many p) fun as => ∀ a ∈ as, G a :=
  ⟨G, hp, fun _ has => has⟩

/-- What takes a token at least has a region. -/
theorem spanned {G' : Spanned α → Prop} (hp : Situates ts S p G) (hnull : p.nullable = false)
    (hG : ∀ a, a.region.Among ts → G a.value → G' a) : Situates ts S (.spanned p) G' :=
  ⟨G, hp, fun a hregion ha => hG a (hregion hnull) ha⟩

/-- Every part yields what satisfies a predicate of everything. -/
theorem trivially (p : Syntax.Part α) (hG : ∀ a, G a) : Situates ts S p G := by
  obtain rfl : G = fun _ => True := funext fun a => eq_true (hG a)
  clear hG
  induction p with
  | token t => exact fun _ _ => trivial
  | done a => trivial
  | seq p q hp hq => exact ⟨_, _, hp, hq, fun _ _ _ _ => trivial⟩
  | choice p q hp hq => exact ⟨hp, hq⟩
  | many p hp => exact ⟨_, hp, fun _ _ => trivial⟩
  | map f p hp => exact ⟨_, hp, fun _ _ => trivial⟩
  | spanned p hp => exact ⟨_, hp, fun _ _ _ => trivial⟩
  | rule n => exact fun _ _ => trivial

/-- A predicate may be weakened. -/
theorem imp {H : α → Prop} (hp : Situates ts S p G) (hG : ∀ a, G a → H a) : Situates ts S p H := by
  induction p with
  | token t => exact fun tok htok => hG _ (hp tok htok)
  | done a => exact hG _ hp
  | seq p q _ _ =>
      obtain ⟨P, Q, hp, hq, hpair⟩ := hp
      exact ⟨P, Q, hp, hq, fun a b ha hb => hG _ (hpair a b ha hb)⟩
  | choice p q ihp ihq => exact ⟨ihp hp.1 hG, ihq hp.2 hG⟩
  | many p _ | map f p _ =>
      obtain ⟨P, hp, hall⟩ := hp
      exact ⟨P, hp, fun a ha => hG _ (hall a ha)⟩
  | spanned p _ =>
      obtain ⟨P, hp, hall⟩ := hp
      exact ⟨P, hp, fun a hregion ha => hG _ (hall a hregion ha)⟩
  | rule n => exact fun a ha => hG _ (hp a ha)

/-- A part with a fixed value yields that value. -/
theorem giving {b : β} (hb : H b) : Situates ts S (p.giving b) H :=
  ⟨_, trivially p fun _ => trivial, fun _ _ => hb⟩

/-- A value that is built from the yield of one part. -/
theorem map {build : α → ε} (hp : Situates ts S p G) (hbuild : ∀ a, G a → L (build a)) :
    Situates ts S (build <$> p) L :=
  ⟨_, hp, hbuild⟩

/-- A function that is yielded, applied to what is yielded behind it. -/
theorem ap {f : Syntax.Part (α → ε)} (hf : Situates ts S f fun g => ∀ a, G a → L (g a))
    (hp : Situates ts S p G) : Situates ts S (f <*> p) L :=
  ⟨fun ga => L (ga.1 ga.2), ⟨_, _, hf, hp, fun _ _ hg ha => hg _ ha⟩, fun _ h => h⟩

/-- A value that is built from the yields of two parts. -/
theorem map₂ {build : α → β → ε} (hp : Situates ts S p G) (hq : Situates ts S q H)
    (hbuild : ∀ a b, G a → H b → L (build a b)) : Situates ts S (build <$> p <*> q) L :=
  .ap (.map hp fun a ha b => hbuild a b ha) hq

/-- A value that is built from the yields of three parts. -/
theorem map₃ {build : α → β → γ → ε} (hp : Situates ts S p G) (hq : Situates ts S q H)
    (hr : Situates ts S r I) (hbuild : ∀ a b c, G a → H b → I c → L (build a b c)) :
    Situates ts S (build <$> p <*> q <*> r) L :=
  .ap (.map₂ hp hq fun a b ha hb c => hbuild a b c ha hb) hr

/-- A value that is built from the yields of four parts. -/
theorem map₄ {build : α → β → γ → δ → ε} (hp : Situates ts S p G) (hq : Situates ts S q H)
    (hr : Situates ts S r I) (ht : Situates ts S t J)
    (hbuild : ∀ a b c d, G a → H b → I c → J d → L (build a b c d)) :
    Situates ts S (build <$> p <*> q <*> r <*> t) L :=
  .ap (.map₃ hp hq hr fun a b c ha hb hc d => hbuild a b c d ha hb hc) ht

/-- The yield of the left of two parts. -/
theorem seq_left (hp : Situates ts S p G) : Situates ts S (p <* q) G :=
  ⟨fun ab => G ab.1, ⟨_, _, hp, trivially q fun _ => trivial, fun _ _ ha _ => ha⟩, fun _ h => h⟩

/-- The yield of the right of two parts. -/
theorem seq_right (hq : Situates ts S q H) : Situates ts S (p *> q) H :=
  ⟨fun ab => H ab.2, ⟨_, _, trivially p fun _ => trivial, hq, fun _ _ _ hb => hb⟩, fun _ h => h⟩

/-- A list that may be missing. -/
theorem or_nothing {p : Syntax.Part (List α)} (hp : Situates ts S p fun as => ∀ a ∈ as, G a) :
    Situates ts S (Syntax.orNothing p) fun as => ∀ a ∈ as, G a :=
  hp.choice (.pure nofun)

/-- A part that may be missing. -/
theorem optional (hp : Situates ts S p G) :
    Situates ts S (Syntax.optional p) fun found => ∀ a ∈ found, G a := by
  refine .choice (.map hp fun a ha => ?_) (.pure nofun)
  rintro _ ⟨⟩
  exact ha

/-- A list with marks between its elements. -/
theorem separated (hp : Situates ts S p G) (m : Mark) :
    Situates ts S (Syntax.separated m p) fun as => ∀ a ∈ as, G a :=
  hp.map₂ (.many (.seq_right hp)) fun _ _ ha has => List.forall_mem_cons.mpr ⟨ha, has⟩

/-- A list in parentheses, maybe empty. -/
theorem parenthesised (hp : Situates ts S p G) :
    Situates ts S (Syntax.parenthesised p) fun as => ∀ a ∈ as, G a :=
  .seq_left (.seq_right (.or_nothing (.separated hp .comma)))

/-- A list in angle brackets. -/
theorem angled (hp : Situates ts S p G) : Situates ts S (Syntax.angled p) fun as => ∀ a ∈ as, G a :=
  .seq_left (.seq_right (.separated hp .comma))

end Situates

end Gram

end MirAudit.Source
