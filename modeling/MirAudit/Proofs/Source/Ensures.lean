import MirAudit.Proofs.Source.Places
import MirAudit.Proofs.Source.Spelling

/-!
# What is read ensures

`Ensures S p G` says that everything that the part `p` of the syntax yields satisfies `G`, if the
named rules yield what satisfies `S`. Names are known to be spelled as names. There is one lemma for
each form of a grammar; `Ensures.derives` carries them along a derivation.
-/

namespace MirAudit.Source

/-- A token whose text is a name if it stands for one. -/
def Token.Spelled (tok : Token) : Prop :=
  tok.terminal = .name → IsName tok.text

/-- What the part yields from tokens that are spelled as they should satisfies `G`, if the named
rules yield what satisfies `S`. -/
def Ensures {α : Type} (S : (n : Syntax.Rule) → n.Tree → Prop) (p : Syntax.Part α) (G : α → Prop) :
    Prop :=
  p.Relates (fun tok tok' => tok' = tok ∧ tok.Spelled) (fun n a _ => S n a) fun a _ => G a

namespace Ensures

variable {α β γ δ ε : Type} {S : (n : Syntax.Rule) → n.Tree → Prop} {p p' : Syntax.Part α}
  {q : Syntax.Part β} {r : Syntax.Part γ} {t : Syntax.Part δ} {G : α → Prop} {H : β → Prop}
  {I : γ → Prop} {J : δ → Prop} {K : ε → Prop}

/-- What a derivation from well-spelled tokens yields satisfies what its part ensures. -/
theorem derives (hrules : ∀ n, Ensures S (Syntax.definition n) (S n)) (hp : Ensures S p G)
    {ts : List Token} {a : α} (hts : ∀ tok ∈ ts, tok.Spelled)
    (h : Gram.Derives Syntax.definition p ts a) : G a := by
  have hself : List.Forall₂ (fun tok tok' => tok' = tok ∧ tok.Spelled) ts ts :=
    List.forall₂_same.mpr fun tok htok => ⟨rfl, hts tok htok⟩
  obtain ⟨_, -, ha⟩ := Gram.Relates.derives (fun _ _ htok => congrArg Token.terminal htok.1) hrules
    hp hself h
  exact ha

/-- Nothing is promised of a token. -/
theorem token (t : Terminal) : Ensures S (.token t) fun _ => True :=
  fun _ _ _ _ => trivial

/-- A name is spelled as a name. -/
theorem name : Ensures S (.token .name) fun tok => IsName tok.text :=
  fun _ _ hterminal htok => htok.2 hterminal

/-- Nothing is promised of a keyword. -/
theorem kw (k : Keyword) : Ensures S (Syntax.kw k) fun _ => True :=
  token _

/-- Nothing is promised of a mark. -/
theorem mark (m : Mark) : Ensures S (Syntax.mark m) fun _ => True :=
  token _

/-- A value that needs no token. -/
theorem pure {a : α} (ha : G a) : Ensures S (Pure.pure a) G :=
  ha

/-- What both parts of a choice ensure. -/
theorem choice (hp : Ensures S p G) (hp' : Ensures S p' G) : Ensures S (p <|> p') G :=
  ⟨hp, hp'⟩

/-- A repetition ensures of every value what its part ensures of one. -/
theorem many (hp : Ensures S p G) : Ensures S (.many p) fun as => ∀ a ∈ as, G a := by
  refine ⟨_, hp, fun as as' has => ?_⟩
  induction has with
  | nil => exact fun a ha => absurd ha List.not_mem_nil
  | cons ha _ ih => exact List.forall_mem_cons.mpr ⟨ha, ih⟩

/-- What is yielded with its span, of which nothing is said. -/
theorem spanned {G' : Spanned α → Prop} (hp : Ensures S p G) (hG : ∀ a, G a.value → G' a) :
    Ensures S (.spanned p) G' :=
  ⟨_, hp, fun a _ ha => hG a ha⟩

/-- A value that does not depend on what is read. -/
theorem giving {b : β} (hp : Ensures S p G) (hb : H b) : Ensures S (p.giving b) H :=
  ⟨_, hp, fun _ _ _ => hb⟩

/-- A function of what is yielded. -/
theorem map {build : α → ε} (hp : Ensures S p G) (hbuild : ∀ a, G a → K (build a)) :
    Ensures S (build <$> p) K :=
  ⟨_, hp, fun a _ ha => hbuild a ha⟩

/-- A function that is yielded, applied to what is yielded behind it. -/
theorem ap {f : Syntax.Part (α → ε)} (hf : Ensures S f fun g => ∀ a, G a → K (g a))
    (hp : Ensures S p G) : Ensures S (f <*> p) K :=
  ⟨fun ga _ => K (ga.1 ga.2), ⟨_, _, hf, hp, fun _ _ _ _ hg ha => hg _ ha⟩, fun _ _ h => h⟩

/-- What is built from two parts in a row. -/
theorem map₂ {build : α → β → ε} (hp : Ensures S p G) (hq : Ensures S q H)
    (hbuild : ∀ a b, G a → H b → K (build a b)) : Ensures S (build <$> p <*> q) K :=
  .ap (.map hp fun a ha b => hbuild a b ha) hq

/-- What is built from three parts in a row. -/
theorem map₃ {build : α → β → γ → ε} (hp : Ensures S p G) (hq : Ensures S q H)
    (hr : Ensures S r I) (hbuild : ∀ a b c, G a → H b → I c → K (build a b c)) :
    Ensures S (build <$> p <*> q <*> r) K :=
  .ap (.map₂ hp hq fun a b ha hb c => hbuild a b c ha hb) hr

/-- What is built from four parts in a row. -/
theorem map₄ {build : α → β → γ → δ → ε} (hp : Ensures S p G) (hq : Ensures S q H)
    (hr : Ensures S r I) (ht : Ensures S t J)
    (hbuild : ∀ a b c d, G a → H b → I c → J d → K (build a b c d)) :
    Ensures S (build <$> p <*> q <*> r <*> t) K :=
  .ap (.map₃ hp hq hr fun a b c ha hb hc d => hbuild a b c d ha hb hc) ht

/-- Of two parts only what the first yields is kept. -/
theorem seq_left (hp : Ensures S p G) (hq : Ensures S q H) : Ensures S (p <* q) G :=
  ⟨fun ab _ => G ab.1, ⟨_, _, hp, hq, fun _ _ _ _ ha _ => ha⟩, fun _ _ h => h⟩

/-- Of two parts only what the second yields is kept. -/
theorem seq_right (hp : Ensures S p G) (hq : Ensures S q H) : Ensures S (p *> q) H :=
  ⟨fun ab _ => H ab.2, ⟨_, _, hp, hq, fun _ _ _ _ _ hb => hb⟩, fun _ _ h => h⟩

/-- A list that may be left out. -/
theorem or_nothing {p : Syntax.Part (List α)} {G : List α → Prop} (hp : Ensures S p G)
    (hnil : G []) : Ensures S (Syntax.orNothing p) G :=
  hp.choice (.pure hnil)

/-- Every value between the separators. -/
theorem separated (hp : Ensures S p G) (m : Mark) :
    Ensures S (Syntax.separated m p) fun as => ∀ a ∈ as, G a :=
  hp.map₂ (.many (.seq_right (.mark m) hp)) fun _ _ ha has => List.forall_mem_cons.mpr ⟨ha, has⟩

/-- There is a value, and every value between the separators. -/
theorem separated_ne_nil (hp : Ensures S p G) (m : Mark) :
    Ensures S (Syntax.separated m p) fun as => as ≠ [] ∧ ∀ a ∈ as, G a :=
  hp.map₂ (.many (.seq_right (.mark m) hp)) fun _ _ ha has =>
    ⟨List.cons_ne_nil _ _, List.forall_mem_cons.mpr ⟨ha, has⟩⟩

/-- Every value of a list in parentheses. -/
theorem parenthesised (hp : Ensures S p G) :
    Ensures S (Syntax.parenthesised p) fun as => ∀ a ∈ as, G a :=
  .seq_left (.seq_right (.mark .parenOpen) (.or_nothing (.separated hp .comma) nofun))
    (.mark .parenClose)

/-- Every value of a list in angle brackets. -/
theorem angled (hp : Ensures S p G) : Ensures S (Syntax.angled p) fun as => ∀ a ∈ as, G a :=
  .seq_left (.seq_right (.mark .angleOpen) (.separated hp .comma)) (.mark .angleClose)

/-- Every part ensures what holds of everything, whatever the named rules yield. -/
theorem trivially (p : Syntax.Part α) : Ensures S p fun _ => True := by
  induction p with
  | token t => exact token t
  | done a => trivial
  | seq p q hp hq => exact ⟨_, _, hp, hq, fun _ _ _ _ _ _ => trivial⟩
  | choice p q hp hq => exact ⟨hp, hq⟩
  | many p hp => exact ⟨_, hp, fun _ _ _ => trivial⟩
  | map f p hp => exact ⟨_, hp, fun _ _ _ => trivial⟩
  | spanned p hp => exact ⟨_, hp, fun _ _ _ => trivial⟩
  | rule n => exact fun _ _ _ => trivial

end Ensures

/-! ## Types and paths -/

/-- What passes from the parts of types and segments that are read to the whole. -/
structure Inherited (T : TypeTree → Prop) (G : SegmentTree → Prop) : Prop where
  unit : T .unit
  tuple : ∀ {elem elems}, T elem → (∀ elem ∈ elems, T elem) → T (.tuple (elem :: elems))
  ref : ∀ {mutable pointee}, T pointee → T (.ref mutable pointee)
  fnPtr : ∀ {inputs output}, (∀ input ∈ inputs, T input) → T output → T (.fnPtr inputs output)
  fnDef : ∀ {path args}, path ≠ [] → (∀ segment ∈ path, G segment) → (∀ arg ∈ args, T arg) →
    T (.fnDef path args)
  never : T .never
  named : ∀ {region path args}, path ≠ [] → (∀ segment ∈ path, G segment) →
    (∀ arg ∈ args, T arg) → T (.named region path args)
  name : ∀ {tok : Token}, IsName tok.text → G (.name tok.string)
  qualified : ∀ {ty traitPath}, T ty → traitPath ≠ [] → (∀ segment ∈ traitPath, G segment) →
    G (.qualified ty traitPath)

/-- What is to hold of the types that are read, and of the segments of the paths. -/
def readAs (T : TypeTree → Prop) (G : SegmentTree → Prop) : (n : Syntax.Rule) → n.Tree → Prop
  | .ty => T
  | .path => fun path => path ≠ [] ∧ ∀ segment ∈ path, G segment

namespace Ensures

variable {T : TypeTree → Prop} {G : SegmentTree → Prop}

/-- It holds of the types that the rule of types yields. -/
theorem ty : Ensures (readAs T G) Syntax.ty T :=
  fun _ _ h => h

/-- A path is not empty, and it holds of its segments. -/
theorem path :
    Ensures (readAs T G) Syntax.path fun path => path ≠ [] ∧ ∀ segment ∈ path, G segment :=
  fun _ _ h => h

/-- It holds of all arguments. -/
theorem type_args : Ensures (readAs T G) Syntax.typeArgs fun args => ∀ arg ∈ args, T arg :=
  .or_nothing (.angled ty) nofun

/-- It holds of the members of a tuple behind its first. -/
theorem tuple_rest : Ensures (readAs T G) Syntax.tupleRest fun elems => ∀ elem ∈ elems, T elem :=
  .seq_right (.mark .comma) (.choice (.giving (.mark .parenClose) nofun)
    (.seq_left (.separated ty .comma) (.mark .parenClose)))

variable (h : Inherited T G)
include h

/-- It holds of what is read behind a parenthesis: the unit type or a tuple. -/
theorem paren_rest : Ensures (readAs T G) Syntax.parenRest T :=
  .choice (.giving (.mark .parenClose) h.unit) (.map₂ ty tuple_rest fun _ _ => h.tuple)

/-- It holds of the segments of either form. -/
theorem segment : Ensures (readAs T G) Syntax.segment G :=
  .choice (.map .name fun _ => h.name)
    (.map₂ (.seq_right (.mark .angleOpen) ty)
      (.seq_left (.seq_right (.kw .asKw) path) (.mark .angleClose)) fun _ _ hty hpath =>
        h.qualified hty hpath.1 hpath.2)

/-- It holds of a path with arguments. -/
theorem named_ty : Ensures (readAs T G) Syntax.namedTy T :=
  have hpair : Ensures (readAs T G) (Prod.mk <$> Syntax.path <*> Syntax.typeArgs) fun found =>
      (found.1 ≠ [] ∧ ∀ segment ∈ found.1, G segment) ∧ ∀ arg ∈ found.2, T arg :=
    .map₂ path type_args fun _ _ hpath hargs => ⟨hpath, hargs⟩
  .map (.spanned hpair fun _ h => h) fun _ hfound => h.named hfound.1.1 hfound.1.2 hfound.2

/-- It holds of every type and of the segments of every path that is read. -/
theorem definition (n : Syntax.Rule) :
    Ensures (readAs T G) (Syntax.definition n) (readAs T G n) := by
  cases n with
  | ty =>
      refine .choice (.seq_right (.mark .parenOpen) (paren_rest h)) (.choice ?ref (.choice ?fnPtr
        (.choice ?fnDef (.choice (.giving (.mark .bang) h.never) (named_ty h)))))
      case ref =>
        exact .map₂ (.seq_right (.mark .ampersand) (.trivially _)) ty fun _ _ _ => h.ref
      case fnPtr =>
        exact .map₂ (.seq_right (.kw .fnKw) (.parenthesised ty)) (.seq_right (.mark .arrow) ty)
          fun _ _ => h.fnPtr
      case fnDef =>
        exact .map₂ (.seq_right (.kw .fndefKw) path) type_args fun _ _ hpath hargs =>
          h.fnDef hpath.1 hpath.2 hargs
  | path => exact .separated_ne_nil (segment h) .pathSep

end Ensures

end MirAudit.Source
