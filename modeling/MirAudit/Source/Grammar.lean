import MirAudit.Source.Token

/-!
# Grammars

A grammar is a value: terminals, sequences, choices and repetitions, with references to named rules.
Each part yields a value of its own type. `Derives` says which sequences of tokens a grammar yields
and with which values. `Gram.parse` reads one by looking a single token ahead: a choice takes its
left part exactly if that part can start with the next token.
-/

namespace MirAudit.Source

/-- A grammar whose values have type `α`, with named rules `N` that yield values of type `ρ n`. -/
inductive Gram {N : Type} (ρ : N → Type) : Type → Type 1 where
  /-- A single token. -/
  | token (t : Terminal) : Gram ρ Token
  /-- No token at all. -/
  | done {α : Type} (a : α) : Gram ρ α
  | seq {α β : Type} (p : Gram ρ α) (q : Gram ρ β) : Gram ρ (α × β)
  | choice {α : Type} (p q : Gram ρ α) : Gram ρ α
  | many {α : Type} (p : Gram ρ α) : Gram ρ (List α)
  | map {α β : Type} (f : α → β) (p : Gram ρ α) : Gram ρ β
  /-- Adds the region of the tokens. -/
  | spanned {α : Type} (p : Gram ρ α) : Gram ρ (Spanned α)
  /-- A named rule. -/
  | rule (n : N) : Gram ρ (ρ n)

namespace Gram

variable {N : Type} {ρ : N → Type}

instance : Applicative (Gram ρ) where
  pure := done
  map := map
  seq p q := map (fun fa => fa.1 fa.2) (.seq p (q ()))
  seqLeft p q := map Prod.fst (.seq p (q ()))
  seqRight p q := map Prod.snd (.seq p (q ()))

instance {α : Type} : OrElse (Gram ρ α) where
  orElse p q := choice p (q ())

/-- The grammar with a fixed value. -/
def giving {α β : Type} (p : Gram ρ α) (b : β) : Gram ρ β :=
  .map (fun _ => b) p

/-! ## The language of a grammar -/

/-- `Derives rules g ts a` says that the grammar `g` yields the tokens `ts` with the value `a`. -/
inductive Derives (rules : (n : N) → Gram ρ (ρ n)) :
    {α : Type} → Gram ρ α → List Token → α → Prop where
  | token (tok : Token) : Derives rules (.token tok.terminal) [tok] tok
  | done {α : Type} (a : α) : Derives rules (.done a) [] a
  | seq {α β : Type} {p : Gram ρ α} {q : Gram ρ β} {ts us : List Token} {a : α} {b : β} :
      Derives rules p ts a → Derives rules q us b → Derives rules (.seq p q) (ts ++ us) (a, b)
  | left {α : Type} {p q : Gram ρ α} {ts : List Token} {a : α} :
      Derives rules p ts a → Derives rules (.choice p q) ts a
  | right {α : Type} {p q : Gram ρ α} {ts : List Token} {a : α} :
      Derives rules q ts a → Derives rules (.choice p q) ts a
  | manyNil {α : Type} {p : Gram ρ α} : Derives rules (.many p) [] []
  | manyCons {α : Type} {p : Gram ρ α} {ts us : List Token} {a : α} {as : List α} :
      Derives rules p ts a → Derives rules (.many p) us as →
      Derives rules (.many p) (ts ++ us) (a :: as)
  | map {α β : Type} {f : α → β} {p : Gram ρ α} {ts : List Token} {a : α} :
      Derives rules p ts a → Derives rules (.map f p) ts (f a)
  | spanned {α : Type} {p : Gram ρ α} {ts : List Token} {a : α} :
      Derives rules p ts a → Derives rules (.spanned p) ts ⟨a, Region.ofTokens ts⟩
  | rule {n : N} {ts : List Token} {a : ρ n} :
      Derives rules (rules n) ts a → Derives rules (.rule n) ts a

/-! ## First tokens -/

/-- Whether the grammar yields the empty sequence; a named rule does not. -/
def nullable : {α : Type} → Gram ρ α → Bool
  | _, .token _ => false
  | _, .done _ => true
  | _, .seq p q => p.nullable && q.nullable
  | _, .choice p q => p.nullable || q.nullable
  | _, .many _ => true
  | _, .map _ p => p.nullable
  | _, .spanned p => p.nullable
  | _, .rule _ => false

/-- The terminals that what the grammar yields can start with, given those of the named rules. -/
def first (firstOf : N → List Terminal) : {α : Type} → Gram ρ α → List Terminal
  | _, .token t => [t]
  | _, .done _ => []
  | _, .seq p q =>
    p.first firstOf ++ (if p.nullable then q.first firstOf else [])
  | _, .choice p q => p.first firstOf ++ q.first firstOf
  | _, .many p => p.first firstOf
  | _, .map _ p => p.first firstOf
  | _, .spanned p => p.first firstOf
  | _, .rule n => firstOf n

/-! ## Reading -/

/-- The outcome of reading: a value with the tokens it took and those that remain, or the tokens
that remain where reading cannot go on. -/
inductive Parsed (α : Type) where
  | ok (value : α) (taken rest : List Token)
  | stuck (rest : List Token)

namespace Parsed

/-- Goes on reading behind a value. -/
def andThen {α β : Type} (r : Parsed α) (next : α → List Token → Parsed β) : Parsed β :=
  match r with
  | .stuck rest => .stuck rest
  | .ok a taken rest =>
    match next a rest with
    | .stuck rest => .stuck rest
    | .ok b more rest => .ok b (taken ++ more) rest

/-- Changes the value. -/
def map {α β : Type} (f : α → β) (r : Parsed α) : Parsed β :=
  match r with
  | .stuck rest => .stuck rest
  | .ok a taken rest => .ok (f a) taken rest

/-- Adds the region of the tokens taken. -/
def spanned {α : Type} (r : Parsed α) : Parsed (Spanned α) :=
  match r with
  | .stuck rest => .stuck rest
  | .ok a taken rest => .ok ⟨a, Region.ofTokens taken⟩ taken rest

end Parsed

/-- Whether the next token is one of the given terminals. -/
def startsWith (terminals : List Terminal) : List Token → Bool
  | [] => false
  | tok :: _ => terminals.contains tok.terminal

/-- Reads values as long as the next token can start one, `limit` at most. -/
def repeatWhile {α : Type} (terminals : List Terminal) (read : List Token → Parsed α) :
    (limit : Nat) → List Token → Parsed (List α)
  | 0, ts => .ok [] [] ts
  | limit + 1, ts =>
    if startsWith terminals ts then
      (read ts).andThen fun a rest =>
        (repeatWhile terminals read limit rest).map fun as => a :: as
    else .ok [] [] ts

/-- Reads a grammar, given how the named rules start and how they are read. No repetition reads more
than `limit` values. -/
def parseWith (firstOf : N → List Terminal) (parseRule : (n : N) → List Token → Parsed (ρ n))
    (limit : Nat) : {α : Type} → Gram ρ α → List Token → Parsed α
  | _, .token t, ts =>
    match ts with
    | tok :: rest => if tok.terminal = t then .ok tok [tok] rest else .stuck ts
    | [] => .stuck []
  | _, .done a, ts => .ok a [] ts
  | _, .seq p q, ts =>
    (p.parseWith firstOf parseRule limit ts).andThen fun a rest =>
      (q.parseWith firstOf parseRule limit rest).map fun b => (a, b)
  | _, .choice p q, ts =>
    if startsWith (p.first firstOf) ts then p.parseWith firstOf parseRule limit ts
    else q.parseWith firstOf parseRule limit ts
  | _, .many p, ts =>
    repeatWhile (p.first firstOf) (p.parseWith firstOf parseRule limit) limit ts
  | _, .map f p, ts => (p.parseWith firstOf parseRule limit ts).map f
  | _, .spanned p, ts => (p.parseWith firstOf parseRule limit ts).spanned
  | _, .rule n, ts => parseRule n ts

/-- Reads a named rule, with references nested `depth` deep at most. -/
def parseRule (firstOf : N → List Terminal) (rules : (n : N) → Gram ρ (ρ n)) :
    (depth : Nat) → (n : N) → List Token → Parsed (ρ n)
  | 0, _, ts => .stuck ts
  | depth + 1, n, ts => (rules n).parseWith firstOf (parseRule firstOf rules depth) depth ts

/-- The depth to which references may nest while `count` tokens are read. It is never reached as
long as every second reference takes a token, and it exceeds the number of tokens that remain. -/
def depthFor (count : Nat) : Nat :=
  2 * count + 2

/-- Reads all tokens as what the grammar yields. -/
def parse {α : Type} (firstOf : N → List Terminal) (rules : (n : N) → Gram ρ (ρ n))
    (g : Gram ρ α) (ts : List Token) : Except (List Token) α :=
  let depth := depthFor ts.length
  match g.parseWith firstOf (parseRule firstOf rules depth) depth ts with
  | .ok a _ [] => .ok a
  | .ok _ _ rest => .error rest
  | .stuck rest => .error rest

end Gram

end MirAudit.Source
