import MirAudit.Proofs.Outcome
import MirAudit.Proofs.Source.Unambiguous
import MirAudit.Source.Load

/-!
# The reference grammar

The syntax in which one token of lookahead decides every choice is a factored form of the grammar
of the language: there the unit type and the two kinds of tuples are alternatives of their own, and
so are external crates and foreign functions. Read `read_text_iff_derivation` first: a text whose
characters all belong to tokens is read exactly if the reference grammar derives its tokens. The
derivation is then the only one, and its value is what is read.
-/

namespace MirAudit.Source.Reference

open Gram
open Syntax hiding Part

/-! ## The grammar -/

/-- The unit type. -/
def unitTy : Syntax.Part TypeTree :=
  (mark .parenOpen *> mark .parenClose).giving .unit

/-- A tuple of one element, with its comma. -/
def oneTuple : Syntax.Part TypeTree :=
  (fun elem => .tuple [elem]) <$> (mark .parenOpen *> ty <* mark .comma <* mark .parenClose)

/-- One or more further elements of a tuple. -/
def moreElems : Syntax.Part (List TypeTree) :=
  (fun elem elems => elem :: elems) <$> (mark .comma *> ty) <*> .many (mark .comma *> ty)

/-- A tuple of two or more elements. -/
def longTuple : Syntax.Part TypeTree :=
  (fun elem elems => .tuple (elem :: elems))
    <$> (mark .parenOpen *> ty) <*> (moreElems <* mark .parenClose)

/-- A type that does not start with a parenthesis. -/
def otherTy : Syntax.Part TypeTree :=
  .ref <$> (mark .ampersand *> present (kw .mutKw)) <*> ty
    <|> .fnPtr <$> (kw .fnKw *> parenthesised ty) <*> (mark .arrow *> ty)
    <|> .fnDef <$> (kw .fndefKw *> path) <*> typeArgs
    <|> (mark .bang).giving .never
    <|> namedTy

/-- The definitions of the named rules. -/
def definition : (n : Rule) → Syntax.Part n.Tree
  | .ty => unitTy <|> oneTuple <|> longTuple <|> otherTy
  | .path => separated .pathSep segment

/-- The declaration of the crate. -/
def crateDecl : Syntax.Part ItemTree :=
  .crate <$> (kw .crateKw *> .token .name <* mark .semicolon)

/-- An external crate. -/
def externCrate : Syntax.Part ItemTree :=
  kw .externKw *> Syntax.externCrate

/-- A foreign function. -/
def externFn : Syntax.Part ItemTree :=
  kw .externKw *> Syntax.externFn

/-- A nominal type. -/
def structDef : Syntax.Part ItemTree :=
  .struct <$> (kw .structKw *> .token .name)
    <*> (orNothing (angled (.token .name)) <* mark .semicolon)

/-- A trait. -/
def traitDef : Syntax.Part ItemTree :=
  .trait <$> (kw .traitKw *> .token .name <* mark .braceOpen)
    <*> (.many traitMethod <* mark .braceClose)

/-- An impl. -/
def implDef : Syntax.Part ItemTree :=
  .impl <$> (kw .implKw *> path) <*> (kw .forKw *> ty <* mark .braceOpen)
    <*> (.many implMethod <* mark .braceClose)

/-- A function with a body. -/
def fnDef : Syntax.Part ItemTree :=
  .fn <$> present (kw .entryKw) <*> (kw .fnKw *> signature) <*> body

/-- An item. -/
def item : Syntax.Part (Spanned ItemTree) :=
  .spanned <|
    crateDecl <|> externCrate <|> structDef <|> traitDef <|> implDef <|> fnDef <|> externFn

/-- A source text. -/
def program : Syntax.Part (List (Spanned ItemTree)) :=
  .many item

/-! ## The factored syntax derives the same -/

variable {rules : (n : Rule) → Syntax.Part n.Tree} {ts us : List Token} {α : Type}

theorem derives_mark_iff {m : Mark} {tok : Token} :
    Derives rules (mark m) ts tok ↔ ts = [tok] ∧ tok.terminal = .mark m :=
  derives_token_iff

theorem derives_unit_ty_iff {tree : TypeTree} :
    Derives rules unitTy ts tree ↔
      ∃ opening closing, ts = [opening, closing] ∧ opening.terminal = .mark .parenOpen ∧
        closing.terminal = .mark .parenClose ∧ tree = .unit := by
  simp only [unitTy, derives_giving_iff, derives_seq_right_iff, derives_mark_iff]
  constructor
  · intro h
    obtain ⟨⟨closing, _, _, opening, rfl, ⟨rfl, hopening⟩, rfl, hclosing⟩, rfl⟩ := h
    exact ⟨opening, closing, rfl, hopening, hclosing, rfl⟩
  · intro h
    obtain ⟨opening, closing, rfl, hopening, hclosing, rfl⟩ := h
    exact ⟨⟨closing, [opening], [closing], opening, rfl, ⟨rfl, hopening⟩, rfl, hclosing⟩, rfl⟩

theorem derives_one_tuple_iff {tree : TypeTree} :
    Derives rules oneTuple ts tree ↔
      ∃ opening us comma closing elem, ts = opening :: (us ++ [comma, closing]) ∧
        opening.terminal = .mark .parenOpen ∧ Derives rules ty us elem ∧
        comma.terminal = .mark .comma ∧ closing.terminal = .mark .parenClose ∧
        tree = .tuple [elem] := by
  simp only [oneTuple, derives_map_iff, derives_seq_left_iff, derives_seq_right_iff,
    derives_mark_iff]
  constructor
  · intro h
    obtain ⟨elem, ⟨_, _, closing, rfl, ⟨_, _, comma, rfl, ⟨_, us, opening, rfl, ⟨rfl, hopening⟩,
      helem⟩, rfl, hcomma⟩, rfl, hclosing⟩, rfl⟩ := h
    exact ⟨opening, us, comma, closing, elem, by simp, hopening, helem, hcomma, hclosing, rfl⟩
  · intro h
    obtain ⟨opening, us, comma, closing, elem, rfl, hopening, helem, hcomma, hclosing, rfl⟩ := h
    exact ⟨elem, ⟨_, _, closing, by simp, ⟨_, _, comma, rfl, ⟨_, us, opening, rfl, ⟨rfl, hopening⟩,
      helem⟩, rfl, hcomma⟩, rfl, hclosing⟩, rfl⟩

/-- What is separated by marks is one part, and then parts behind marks. -/
theorem derives_separated_iff {m : Mark} {p : Syntax.Part α} {as : List α} :
    Derives rules (separated m p) ts as ↔
      ∃ us vs b bs, ts = us ++ vs ∧ Derives rules p us b ∧
        Derives rules (.many (mark m *> p)) vs bs ∧ as = b :: bs := by
  simp only [separated, derives_ap_iff, derives_map_iff]
  constructor
  · intro h
    obtain ⟨us, vs, _, bs, rfl, ⟨b, hb, rfl⟩, hbs, rfl⟩ := h
    exact ⟨us, vs, b, bs, rfl, hb, hbs, rfl⟩
  · intro h
    obtain ⟨us, vs, b, bs, rfl, hb, hbs, rfl⟩ := h
    exact ⟨us, vs, _, bs, rfl, ⟨b, hb, rfl⟩, hbs, rfl⟩

/-- One or more elements behind commas are a comma in front of a list with commas. -/
theorem derives_more_elems_iff {elems : List TypeTree} :
    Derives rules moreElems ts elems ↔
      ∃ comma us, ts = comma :: us ∧ comma.terminal = .mark .comma ∧
        Derives rules (separated .comma ty) us elems := by
  simp only [moreElems, derives_separated_iff, derives_ap_iff, derives_map_iff,
    derives_seq_right_iff (p := mark _) (q := ty), derives_mark_iff]
  constructor
  · intro h
    obtain ⟨_, ws, _, elems, rfl, ⟨next, ⟨_, vs, comma, rfl, ⟨rfl, hcomma⟩, hnext⟩, rfl⟩, helems,
      rfl⟩ := h
    exact ⟨comma, vs ++ ws, by simp, hcomma, vs, ws, next, elems, rfl, hnext, helems, rfl⟩
  · intro h
    obtain ⟨comma, _, rfl, hcomma, vs, ws, next, elems, rfl, hnext, helems, rfl⟩ := h
    exact ⟨comma :: vs, ws, _, elems, rfl, ⟨next, ⟨[comma], vs, comma, rfl, ⟨rfl, hcomma⟩, hnext⟩,
      rfl⟩, helems, rfl⟩

theorem derives_long_tuple_iff {tree : TypeTree} :
    Derives rules longTuple ts tree ↔
      ∃ opening us comma vs closing elem elems,
        ts = opening :: (us ++ comma :: (vs ++ [closing])) ∧
        opening.terminal = .mark .parenOpen ∧ Derives rules ty us elem ∧
        comma.terminal = .mark .comma ∧ Derives rules (separated .comma ty) vs elems ∧
        closing.terminal = .mark .parenClose ∧ tree = .tuple (elem :: elems) := by
  simp only [longTuple, derives_ap_iff, derives_map_iff, derives_seq_left_iff,
    derives_seq_right_iff, derives_mark_iff, derives_more_elems_iff]
  constructor
  · intro h
    obtain ⟨_, _, _, elems, rfl, ⟨elem, ⟨_, us, opening, rfl, ⟨rfl, hopening⟩, helem⟩, rfl⟩,
      ⟨_, _, closing, rfl, ⟨comma, vs, rfl, hcomma, helems⟩, rfl, hclosing⟩, rfl⟩ := h
    exact ⟨opening, us, comma, vs, closing, elem, elems, by simp, hopening, helem, hcomma, helems,
      hclosing, rfl⟩
  · intro h
    obtain ⟨opening, us, comma, vs, closing, elem, elems, rfl, hopening, helem, hcomma, helems,
      hclosing, rfl⟩ := h
    exact ⟨opening :: us, comma :: vs ++ [closing], _, elems, by simp,
      ⟨elem, ⟨[opening], us, opening, rfl, ⟨rfl, hopening⟩, helem⟩, rfl⟩,
      ⟨comma :: vs, [closing], closing, rfl, ⟨comma, vs, rfl, hcomma, helems⟩, rfl, hclosing⟩, rfl⟩

/-- Behind the first element of a tuple stands a comma, and then nothing or more elements. -/
theorem derives_tuple_rest_iff {elems : List TypeTree} :
    Derives rules tupleRest ts elems ↔
      ∃ comma us closing, ts = comma :: (us ++ [closing]) ∧ comma.terminal = .mark .comma ∧
        closing.terminal = .mark .parenClose ∧
        ((us = [] ∧ elems = []) ∨ Derives rules (separated .comma ty) us elems) := by
  simp only [tupleRest, derives_seq_right_iff, derives_choice_iff, derives_giving_iff,
    derives_seq_left_iff, derives_mark_iff]
  constructor
  · intro h
    obtain ⟨_, _, comma, rfl, ⟨rfl, hcomma⟩, ⟨⟨closing, rfl, hclosing⟩, rfl⟩ |
      ⟨us, _, closing, rfl, helems, rfl, hclosing⟩⟩ := h
    · exact ⟨comma, [], closing, rfl, hcomma, hclosing, Or.inl ⟨rfl, rfl⟩⟩
    · exact ⟨comma, us, closing, rfl, hcomma, hclosing, Or.inr helems⟩
  · intro h
    obtain ⟨comma, us, closing, rfl, hcomma, hclosing, ⟨rfl, rfl⟩ | helems⟩ := h
    · exact ⟨[comma], [closing], comma, rfl, ⟨rfl, hcomma⟩, Or.inl ⟨⟨closing, rfl, hclosing⟩, rfl⟩⟩
    · exact ⟨[comma], us ++ [closing], comma, rfl, ⟨rfl, hcomma⟩,
        Or.inr ⟨us, [closing], closing, rfl, helems, rfl, hclosing⟩⟩

/-- Behind an opening parenthesis, the factored syntax has the unit type and both kinds of
tuples. -/
theorem derives_paren_iff {tree : TypeTree} :
    Derives rules (mark .parenOpen *> parenRest) ts tree ↔
      Derives rules unitTy ts tree ∨ Derives rules oneTuple ts tree ∨
        Derives rules longTuple ts tree := by
  simp only [parenRest, derives_unit_ty_iff, derives_one_tuple_iff, derives_long_tuple_iff,
    derives_seq_right_iff, derives_choice_iff, derives_giving_iff, derives_map_iff, derives_ap_iff,
    derives_mark_iff, derives_tuple_rest_iff]
  constructor
  · intro h
    obtain ⟨_, _, opening, rfl, ⟨rfl, hopening⟩, ⟨⟨closing, rfl, hclosing⟩, rfl⟩ |
      ⟨us, _, _, elems, rfl, ⟨elem, helem, rfl⟩, ⟨comma, vs, closing, rfl, hcomma, hclosing,
        ⟨rfl, rfl⟩ | helems⟩, rfl⟩⟩ := h
    · exact Or.inl ⟨opening, closing, rfl, hopening, hclosing, rfl⟩
    · exact Or.inr (Or.inl ⟨opening, us, comma, closing, elem, rfl, hopening, helem, hcomma,
        hclosing, rfl⟩)
    · exact Or.inr (Or.inr ⟨opening, us, comma, vs, closing, elem, elems, rfl, hopening, helem,
        hcomma, helems, hclosing, rfl⟩)
  · intro h
    obtain ⟨opening, closing, rfl, hopening, hclosing, rfl⟩ |
      ⟨opening, us, comma, closing, elem, rfl, hopening, helem, hcomma, hclosing, rfl⟩ |
      ⟨opening, us, comma, vs, closing, elem, elems, rfl, hopening, helem, hcomma, helems, hclosing,
        rfl⟩ := h
    · exact ⟨[opening], [closing], opening, rfl, ⟨rfl, hopening⟩,
        Or.inl ⟨⟨closing, rfl, hclosing⟩, rfl⟩⟩
    · exact ⟨[opening], us ++ [comma, closing], opening, rfl, ⟨rfl, hopening⟩,
        Or.inr ⟨us, [comma, closing], _, [], rfl, ⟨elem, helem, rfl⟩,
          ⟨comma, [], closing, rfl, hcomma, hclosing, Or.inl ⟨rfl, rfl⟩⟩, rfl⟩⟩
    · exact ⟨[opening], us ++ comma :: (vs ++ [closing]), opening, rfl, ⟨rfl, hopening⟩,
        Or.inr ⟨us, comma :: (vs ++ [closing]), _, elems, rfl, ⟨elem, helem, rfl⟩,
          ⟨comma, vs, closing, rfl, hcomma, hclosing, Or.inr helems⟩, rfl⟩⟩

/-- The rules of the reference derive what the rules of the reader derive. -/
theorem derives_definition_iff {n : Rule} {a : n.Tree} :
    Derives rules (definition n) ts a ↔ Derives rules (Syntax.definition n) ts a := by
  cases n with
  | ty =>
      show Derives rules (unitTy <|> oneTuple <|> longTuple <|> otherTy) ts a ↔
        Derives rules (mark .parenOpen *> parenRest <|> otherTy) ts a
      simp only [derives_choice_iff (p := unitTy), derives_choice_iff (p := oneTuple),
        derives_choice_iff (p := longTuple), derives_choice_iff (p := mark _ *> parenRest),
        derives_paren_iff, or_assoc]
  | path => exact Iff.rfl

theorem derives_extern_iff {tree : ItemTree} :
    Derives rules (kw .externKw *> (Syntax.externCrate <|> Syntax.externFn)) ts tree ↔
      Derives rules externCrate ts tree ∨ Derives rules externFn ts tree := by
  simp only [externCrate, externFn, derives_seq_right_iff, derives_choice_iff, and_or_left,
    exists_or]

/-- The reference has the items of the reader. -/
theorem derives_item_iff {tree : Spanned ItemTree} :
    Derives rules item ts tree ↔ Derives rules Syntax.item ts tree := by
  show _ ↔ Derives rules (.spanned <| crateDecl <|>
    kw .externKw *> (Syntax.externCrate <|> Syntax.externFn) <|> structDef <|> traitDef <|> implDef
      <|> fnDef) ts tree
  rw [item, derives_spanned_iff, derives_spanned_iff]
  refine and_congr_left fun _ => ?_
  rw [derives_choice_iff, derives_choice_iff, derives_choice_iff, derives_choice_iff,
    derives_choice_iff, derives_choice_iff, derives_choice_iff, derives_choice_iff,
    derives_choice_iff, derives_choice_iff, derives_choice_iff, derives_extern_iff]
  tauto

/-- What the reference rules derive, the factored rules derive, and conversely. -/
theorem derives_rules_iff {g : Syntax.Part α} {a : α} :
    Derives definition g ts a ↔ Derives Syntax.definition g ts a :=
  ⟨.of_rules fun _ _ _ => derives_definition_iff.mp,
    .of_rules fun _ _ _ => derives_definition_iff.mpr⟩

/-- The reference has the programs of the reader. -/
theorem derives_program_iff {items : List (Spanned ItemTree)} :
    Derives definition program ts items ↔ Derives Syntax.definition Syntax.program ts items := by
  have hitem : Derives Syntax.definition item = Derives Syntax.definition Syntax.item := by
    funext us tree
    exact propext derives_item_iff
  rw [derives_rules_iff, program, Syntax.program, derives_many_iff, derives_many_iff, hitem]

/-! ## One derivation -/

/-- The terminals that stand behind the named rules. -/
def followOf : Rule → List Terminal
  | .ty =>
    [.mark .comma, .mark .parenOpen, .mark .parenClose, .mark .angleClose, .mark .braceOpen,
      .mark .semicolon, .keyword .asKw]
  | .path =>
    [.mark .comma, .mark .parenOpen, .mark .parenClose, .mark .angleOpen, .mark .angleClose,
      .mark .braceOpen, .mark .semicolon, .mark .plus, .keyword .asKw, .keyword .forKw]

/-- A type may start with a path, which does not start with a type. -/
def rank : Rule → Nat
  | .ty => 1
  | .path => 0

/-- One token of lookahead decides every choice in the factored types and paths. -/
def lookahead : Lookahead Syntax.definition where
  firstOf := firstOf
  not_nullable := by rintro (_ | _) <;> rfl
  first_subset := by rintro (_ | _) <;> decide
  followOf := followOf
  rank := rank
  predictive := by rintro (_ | _) <;> decide
  lead_le := by rintro (_ | _) <;> decide
  rank_le := by rintro (_ | _) <;> decide

/-- The terminals with which the named rules start. -/
def firsts : FirstTable definition where
  firstOf := firstOf
  not_nullable := by rintro (_ | _) <;> rfl
  first_subset := by rintro (_ | _) <;> decide

/-- The items that are read are those that the reference derives. -/
theorem read_items_eq_ok_iff {items : List (Spanned ItemTree)} :
    readItems ts = .ok items ↔ Derives definition program ts items := by
  rw [derives_program_iff]
  exact lookahead.parse_eq_ok_iff (by decide)

section Excludes

variable {follow : List Terminal}

theorem unit_ty_excludes_one_tuple : Excludes definition unitTy oneTuple follow := by
  intro us vs rest left a b hunit hone _ _ hsplit
  obtain ⟨_, closing, rfl, -, hclosing, -⟩ := derives_unit_ty_iff.mp hunit
  obtain ⟨_, _, _, _, _, rfl, -, helem, -⟩ := derives_one_tuple_iff.mp hone
  simp only [List.cons_append, List.append_assoc, List.cons.injEq] at hsplit
  refine firsts.append_ne_cons helem rfl ?_ hsplit.2.symm
  rw [hclosing]
  decide

theorem unit_ty_excludes_long_tuple : Excludes definition unitTy longTuple follow := by
  intro us vs rest left a b hunit hlong _ _ hsplit
  obtain ⟨_, closing, rfl, -, hclosing, -⟩ := derives_unit_ty_iff.mp hunit
  obtain ⟨_, _, _, _, _, _, _, rfl, -, helem, -⟩ := derives_long_tuple_iff.mp hlong
  simp only [List.cons_append, List.append_assoc, List.cons.injEq] at hsplit
  refine firsts.append_ne_cons helem rfl ?_ hsplit.2.symm
  rw [hclosing]
  decide

/-- What stands behind the first comma tells the two kinds of tuples apart. -/
theorem one_tuple_excludes_long_tuple : Excludes definition oneTuple longTuple follow := by
  intro us vs rest left a b hone hlong _ _ hsplit
  obtain ⟨_, us, comma, closing, _, rfl, -, helem, hcomma, hclosing, -⟩ :=
    derives_one_tuple_iff.mp hone
  obtain ⟨_, _, comma', ws, _, _, _, rfl, -, helem', hcomma', helems, -⟩ :=
    derives_long_tuple_iff.mp hlong
  simp only [List.cons_append, List.append_assoc, List.cons.injEq] at hsplit
  have hfollow (tok : Token) (more : List Token) (h : tok.terminal = .mark .comma) :
      Follows [.mark .comma] (tok :: more) :=
    Follows.of_cons (h ▸ List.mem_singleton.mpr rfl)
  obtain ⟨rfl, -⟩ := lookahead.derives_unique (g := ty) (by decide) (derives_rules_iff.mp helem)
    (hfollow comma _ hcomma) (derives_rules_iff.mp helem') (hfollow comma' _ hcomma') hsplit.2
  have htail := (List.cons.inj (List.append_cancel_left hsplit.2)).2
  refine firsts.append_ne_cons helems rfl ?_ htail.symm
  rw [hclosing]
  decide

/-- The second word tells an external crate from a foreign function. -/
theorem extern_crate_excludes_extern_fn : Excludes definition externCrate externFn follow :=
  (Excludes.of_apart firsts rfl rfl).behind_token _

end Excludes

/-- The choices in the rules of the reference exclude each other. -/
theorem settled_definition (n : Rule) :
    (definition n).Settled definition firsts.firstOf followOf (followOf n) := by
  cases n with
  | ty =>
      have hunit : unitTy.Settled definition firsts.firstOf followOf (followOf .ty) :=
        .of_predictive firsts (by decide)
      have hone : oneTuple.Settled definition firsts.firstOf followOf (followOf .ty) :=
        .of_predictive firsts (by decide)
      have hlong : longTuple.Settled definition firsts.firstOf followOf (followOf .ty) :=
        .of_predictive firsts (by decide)
      have hother : otherTy.Settled definition firsts.firstOf followOf (followOf .ty) :=
        .of_predictive firsts (by decide)
      have hparen {p : Syntax.Part TypeTree} (hnull : p.nullable = false)
          (hapart : apart (p.first firsts.firstOf) (otherTy.ahead firsts.firstOf (followOf .ty))
            = true) :
          Excludes definition p otherTy (followOf .ty) := Excludes.of_apart firsts hnull hapart
      exact ⟨unit_ty_excludes_one_tuple.choice (unit_ty_excludes_long_tuple.choice (hparen rfl rfl)),
        hunit, one_tuple_excludes_long_tuple.choice (hparen rfl rfl), hone, hparen rfl rfl, hlong,
        hother⟩
  | path => exact .of_predictive firsts (by decide)

/-- The repetition of items ends where it must. -/
theorem settled_program : program.Settled definition firsts.firstOf followOf [] := by
  have hitem : item.Settled definition firsts.firstOf followOf
      (item.first firsts.firstOf ++ []) := by
    have hothers : Excludes definition externCrate
        (structDef <|> traitDef <|> implDef <|> fnDef <|> externFn)
        (item.first firsts.firstOf ++ []) := by
      have hdistinct {p : Syntax.Part ItemTree} (hapart : apart (externCrate.first firsts.firstOf)
          (p.ahead firsts.firstOf (item.first firsts.firstOf ++ [])) = true) :
          Excludes definition externCrate p (item.first firsts.firstOf ++ []) :=
        Excludes.of_apart firsts rfl hapart
      exact (hdistinct rfl).choice ((hdistinct rfl).choice ((hdistinct rfl).choice
        ((hdistinct rfl).choice extern_crate_excludes_extern_fn)))
    exact ⟨Excludes.of_apart firsts rfl rfl, .of_predictive firsts (by decide), hothers,
      .of_predictive firsts (by decide), .of_predictive firsts (by decide)⟩
  exact ⟨rfl, rfl, hitem⟩

/-- The reference grammar has at most one derivation of a sequence of tokens. -/
theorem derivation_unique (d e : Derivation definition program) (h : d.yield = e.yield) :
    d = e := by
  have hend : Follows [] ([] : List Token) := nofun
  exact eq_of_yield firsts settled_definition d e settled_program hend hend (by rw [h])

end MirAudit.Source.Reference

namespace MirAudit.Source

open Gram Reference

/-- A text is read as some items if all of its characters belong to tokens, of which the reference
grammar derives these items. -/
theorem read_text_eq_ok {text : List Char} {items : List (Spanned ItemTree)} :
    readText text = .ok items ↔ (Lexed.ofText text).ending = .endOfText ∧
      Derives definition program (Lexed.ofText text).tokens items := by
  rw [← read_items_eq_ok_iff, readText]
  cases hitems : Syntax.readItems (Lexed.ofText text).tokens with
  | error rest => simp
  | ok found => cases hending : (Lexed.ofText text).ending <;> simp

/-- A text whose characters all belong to tokens is read exactly if the reference grammar derives
its tokens. The derivation is the only one, and what is read is its value. -/
theorem read_text_iff_derivation (text : List Char)
    (htext : (Lexed.ofText text).ending = .endOfText) :
    ((∃ items, readText text = .ok items) ↔
      ∃ d : Derivation definition program, d.yield = (Lexed.ofText text).tokens) ∧
    ∀ d : Derivation definition program, d.yield = (Lexed.ofText text).tokens →
      readText text = .ok d.value ∧
        ∀ e : Derivation definition program, e.yield = (Lexed.ofText text).tokens → e = d := by
  have hread (items : List (Spanned ItemTree)) : readText text = .ok items ↔
      ∃ d : Derivation definition program, d.yield = (Lexed.ofText text).tokens ∧
        d.value = items := by
    rw [← derives_iff_derivation]
    exact read_text_eq_ok.trans (and_iff_right htext)
  refine ⟨⟨?_, ?_⟩, ?_⟩
  · intro h
    obtain ⟨items, hitems⟩ := h
    obtain ⟨d, hyield, -⟩ := (hread items).mp hitems
    exact ⟨d, hyield⟩
  · intro h
    obtain ⟨d, hyield⟩ := h
    exact ⟨d.value, (hread d.value).mpr ⟨d, hyield, rfl⟩⟩
  · intro d hyield
    exact ⟨(hread d.value).mpr ⟨d, hyield, rfl⟩,
      fun e he => derivation_unique e d (he.trans hyield.symm)⟩

/-- An external crate, a foreign function, and a trait whose method has the unit type, both kinds
of tuples and a qualified segment in its signature. -/
def tuplesText : String :=
  "extern crate alloc \x7b fn boxed<T>((T,)) -> alloc::Box<T>; \x7d
extern fn abort() -> !;
trait Split \x7b fn split(&Self, ((), <Self as Split>::Part)) -> (); \x7d
"

set_option maxRecDepth 20000 in
/-- The tokens of the text have one derivation, and its value is what is read. -/
theorem read_text_of_tuples :
    ∃ d : Derivation definition program, d.yield = (Lexed.ofText tuplesText.toList).tokens ∧
      readText tuplesText.toList = .ok d.value ∧ d.value.length = 3 ∧
      ∀ e : Derivation definition program,
        e.yield = (Lexed.ofText tuplesText.toList).tokens → e = d := by
  have hread :
      (readText tuplesText.toList).toOption.any (fun items => items.length == 3) = true :=
    Outcome.test_of_chars (f := fun text =>
      (readText text).toOption.any fun items => items.length == 3) (by decide +kernel)
  obtain ⟨items, hitems, hlength⟩ := Outcome.exists_of_any hread
  obtain ⟨hiff, hderivation⟩ :=
    read_text_iff_derivation tuplesText.toList (read_text_eq_ok.mp hitems).1
  obtain ⟨d, hyield⟩ := hiff.mp ⟨items, hitems⟩
  obtain ⟨hvalue, hunique⟩ := hderivation d hyield
  obtain rfl := Except.ok.inj (hitems.symm.trans hvalue)
  exact ⟨d, hyield, hitems, beq_iff_eq.mp hlength, hunique⟩

end MirAudit.Source
