import MirAudit.Proofs.Source.Widths
import MirAudit.Source.Lexer
import MirAudit.Source.Syntax

/-!
# Types that can be written

`Scope.Denotable` says that some text of the syntax of types denotes a type. Among the denotable
types there are arbitrarily wide ones: the towers of tuples, see `denotable_tower`.
-/

namespace MirAudit

namespace Ty

/-- Unit inside `n` tuples of one element each. -/
def tower : Nat → Ty
  | 0 => .unit
  | n + 1 => .tuple [tower n]

/-- Every tower is a tuple. -/
theorem tower_eq_tuple (n : Nat) : ∃ elems, tower n = .tuple elems := by
  cases n with
  | zero => exact ⟨[], rfl⟩
  | succ n => exact ⟨[tower n], rfl⟩

/-- A tower is wider than it is high. -/
theorem length_render_tower (n : Nat) : (tower n).render.length = 3 * n + 2 := by
  induction n with
  | zero => rfl
  | succ n ih =>
      have hone : (tower (n + 1)).render = "(" ++ (tower n).render ++ ",)" := rfl
      have hopen : "(".length = 1 := rfl
      have hclose : ",)".length = 2 := rfl
      rw [hone, String.length_append, String.length_append, ih, hopen, hclose]
      omega

/-- Towers of different heights are different. -/
theorem tower_injective : Function.Injective tower := by
  intro m n h
  have hlength : (tower m).render.length = (tower n).render.length := congrArg (·.render.length) h
  rw [length_render_tower, length_render_tower] at hlength
  omega

end Ty

namespace Source

/-! ## Splitting -/

/-- The token of a mark of one character at a place. -/
def markToken (m : Mark) (c : Char) (p : Position) : Token :=
  ⟨.mark m, [c], p, p.advance c⟩

/-- From `p` on, the text splits into the tokens `ts` and leads to `q`, whatever follows it. -/
def Splits (p : Position) (text : List Char) (q : Position) (ts : List Token) : Prop :=
  ∀ tail, Lexed.from p (text ++ tail) =
    { Lexed.from q tail with tokens := ts ++ (Lexed.from q tail).tokens }

namespace Splits

variable {p q r : Position} {text more : List Char} {ts us : List Token}

/-- Texts one behind the other are split one behind the other. -/
theorem append (h : Splits p text q ts) (hmore : Splits q more r us) :
    Splits p (text ++ more) r (ts ++ us) := by
  intro tail
  rw [List.append_assoc, h (more ++ tail), hmore tail]
  simp only [List.append_assoc]

/-- A mark of one character is a token of its own. -/
theorem mark {c : Char} {m : Mark}
    (h : ∀ tail, Piece.startingWith c tail = .token (.mark m) 0) :
    Splits p [c] (p.advance c) [markToken m c p] := by
  intro tail
  rw [List.singleton_append, Lexed.from, h tail]
  rfl

theorem parenOpen : Splits p ['('] (p.advance '(') [markToken .parenOpen '(' p] :=
  mark fun _ => rfl

theorem parenClose : Splits p [')'] (p.advance ')') [markToken .parenClose ')' p] :=
  mark fun _ => rfl

theorem comma : Splits p [','] (p.advance ',') [markToken .comma ',' p] :=
  mark fun _ => rfl

/-- A text that splits is split up to its end. -/
theorem of_text (h : Splits {} text q ts) :
    (Lexed.ofText text).tokens = ts ∧ (Lexed.ofText text).ending = .endOfText := by
  have hall := h []
  rw [List.append_nil, Lexed.from] at hall
  rw [Lexed.ofText, hall]
  exact ⟨List.append_nil ts, rfl⟩

end Splits

/-! ## Derivations -/

section Derivations

variable {N : Type} {ρ : N → Type} {rules : (n : N) → Gram ρ (ρ n)} {α β : Type} {p : Gram ρ α}
  {ts us : List Token} {a : α} {b : β}

theorem derives_mark {rules : (n : Syntax.Rule) → Syntax.Part n.Tree} (m : Mark) (c : Char)
    (p : Position) : Gram.Derives rules (Syntax.mark m) [markToken m c p] (markToken m c p) :=
  .token (markToken m c p)

theorem derives_giving (h : Gram.Derives rules p ts a) : Gram.Derives rules (p.giving b) ts b :=
  .map h

theorem derives_map {f : α → β} (h : Gram.Derives rules p ts a) :
    Gram.Derives rules (f <$> p) ts (f a) :=
  .map h

theorem derives_seq {f : α → β} {p : Gram ρ (α → β)} {q : Gram ρ α}
    (hp : Gram.Derives rules p ts f) (hq : Gram.Derives rules q us a) :
    Gram.Derives rules (p <*> q) (ts ++ us) (f a) :=
  .map (.seq hp hq)

theorem derives_seq_right {q : Gram ρ β} (hp : Gram.Derives rules p ts a)
    (hq : Gram.Derives rules q us b) : Gram.Derives rules (p *> q) (ts ++ us) b :=
  .map (.seq hp hq)

end Derivations

/-! ## Denotable types -/

/-- Some text of the syntax of types denotes the type. -/
def Scope.Denotable (s : Scope) (ty : Ty) : Prop :=
  ∃ text tree, (Lexed.ofText text).ending = .endOfText ∧
    Gram.Derives Syntax.definition Syntax.ty (Lexed.ofText text).tokens tree ∧
    tree.lower s = .ok ty

/-- The tower as a tree. -/
def towerTree : Nat → TypeTree
  | 0 => .unit
  | n + 1 => .tuple [towerTree n]

/-- The tower as a text. -/
def towerText : Nat → List Char
  | 0 => ['('] ++ [')']
  | n + 1 => ['('] ++ (towerText n ++ ([','] ++ [')']))

/-- The tree of a tower denotes the tower in every scope. -/
theorem tower_tree_lower (s : Scope) (n : Nat) : (towerTree n).lower s = .ok (Ty.tower n) := by
  induction n with
  | zero => rfl
  | succ n ih =>
      simp only [towerTree, TypeTree.lower, lowerTypes, ih]
      rfl

/-- The text of a tower splits into tokens that are read as its tree. -/
theorem tower_text_splits (n : Nat) (p : Position) :
    ∃ q ts, Splits p (towerText n) q ts ∧
      Gram.Derives Syntax.definition Syntax.ty ts (towerTree n) := by
  induction n generalizing p with
  | zero =>
      refine ⟨_, _, Splits.parenOpen.append Splits.parenClose, ?_⟩
      have hclose : Gram.Derives Syntax.definition Syntax.parenRest _ .unit :=
        .left (derives_giving (derives_mark .parenClose ')' (p.advance '(')))
      exact .rule (.left (derives_seq_right (derives_mark .parenOpen '(' p) hclose))
  | succ n ih =>
      obtain ⟨q, ts, hsplits, hderives⟩ := ih (p.advance '(')
      refine ⟨_, _, Splits.parenOpen.append (hsplits.append (Splits.comma.append .parenClose)), ?_⟩
      have hrest : Gram.Derives Syntax.definition Syntax.tupleRest _ [] :=
        derives_seq_right (derives_mark .comma ',' q)
          (.left (derives_giving (derives_mark .parenClose ')' (q.advance ','))))
      have hfirst := derives_map (f := fun elem elems => TypeTree.tuple (elem :: elems)) hderives
      have helems := derives_seq hfirst hrest
      have hopened : Gram.Derives Syntax.definition Syntax.parenRest _ (.tuple [towerTree n]) :=
        .right helems
      exact .rule (.left (derives_seq_right (derives_mark .parenOpen '(' p) hopened))

/-- Every tower is denotable, whatever the names in scope. -/
theorem denotable_tower (s : Scope) (n : Nat) : s.Denotable (.tower n) := by
  obtain ⟨q, ts, hsplits, hderives⟩ := tower_text_splits n {}
  obtain ⟨htokens, hending⟩ := hsplits.of_text
  refine ⟨towerText n, towerTree n, hending, ?_, tower_tree_lower s n⟩
  rw [htokens]
  exact hderives

end Source

end MirAudit
