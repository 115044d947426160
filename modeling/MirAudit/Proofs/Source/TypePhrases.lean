import MirAudit.Proofs.Source.Phrases
import MirAudit.Proofs.Source.Reference
import MirAudit.Source.Scope

/-!
# Phrases of types

The text of a type is put together from the texts of its parts. There is one lemma for each form of
a type and of a segment: it says as which tree the text is read, and takes from the parts whatever
is known of their trees. `Phrase.unique` says that a text is read as one thing only.
-/

namespace MirAudit.Source

/-! ## One reading -/

/-- The tokens that a text is read as are those it splits into, also in front of what no token can
start with. -/
theorem Reads.tokens_eq {cs tail : List Char} {ts : List Token} (h : Reads cs ts)
    (hapart : Apart cs tail) (htail : ∀ p, (Lexed.from p tail).tokens = []) :
    (Lexed.ofText (cs ++ tail)).tokens.map Token.unplaced = ts := by
  obtain ⟨us, q, hsplit, hts⟩ := h {} tail hapart
  rw [Lexed.ofText, hsplit.from_eq, htail q, List.append_nil]
  exact hts

/-! ## Pieces of types -/

/-- Whether a slot or a pointee is mutable is read from the keyword or its absence. -/
theorem mut_phrase (mutable : Bool) : Phrase (Syntax.present (Syntax.kw .mutKw))
    (if mutable then "mut " else "") fun found => found = mutable := by
  cases mutable with
  | false => exact .right (.pure rfl)
  | true => exact .left (.map (Phrase.kw .mutKw).blank_after fun _ _ => rfl)

/-- The start of a reference says whether it is mutable. -/
theorem ampersand_phrase (mutable : Bool) :
    Phrase (Syntax.mark .ampersand *> Syntax.present (Syntax.kw .mutKw))
      (if mutable then "&mut " else "&") fun found => found = mutable :=
  ((mut_phrase mutable).behind_mark .ampersand (by decide)).of_eq (by cases mutable <;> decide)

/-- The start of a reference ends with a mark or a blank. -/
theorem closed_ampersand (mutable : Bool) : Closed (if mutable then "&mut " else "&") := by
  cases mutable
  · exact ⟨'&', rfl, rfl⟩
  · exact ⟨' ', rfl, rfl⟩

/-- Arguments stand in brackets or are left out, so no word runs into them. -/
theorem joint_render_args (text : String) (args : List String) :
    Joint text (Ty.renderArgs args) := by
  cases args with
  | nil => exact .empty
  | cons arg args => exact .of_opening (.append (.append (.mark .angleOpen)))

namespace Phrase

/-! ## One value -/

section Unique

variable {α : Type} {p : Syntax.Part α} {s : String} {P Q : α → Prop}

/-- One token of lookahead decides every choice in the part. -/
abbrev Predictive (p : Syntax.Part α) : Prop :=
  p.predictive Reference.lookahead.firstOf Reference.lookahead.followOf [] = true

/-- What is known of the readings of two texts holds of one value if the texts have the same tokens,
as they have in front of tails that start with no token. -/
theorem unique_front {t : String} {sTail tTail : List Char} (hpred : Predictive p)
    (hs : Phrase p s P) (ht : Phrase p t Q) (hsApart : Apart s.toList sTail)
    (htApart : Apart t.toList tTail) (hsTail : ∀ p, (Lexed.from p sTail).tokens = [])
    (htTail : ∀ p, (Lexed.from p tTail).tokens = [])
    (h : s.toList ++ sTail = t.toList ++ tTail) : ∃ a, P a ∧ Q a := by
  obtain ⟨ts, a, hts, ha, hP⟩ := hs
  obtain ⟨us, b, hus, hb, hQ⟩ := ht
  have hsame : ts = us := by
    rw [← hts.tokens_eq hsApart hsTail, h, hus.tokens_eq htApart htTail]
  have hend : Gram.Follows [] ([] : List Token) := nofun
  obtain ⟨-, rfl⟩ := Reference.lookahead.derives_unique hpred ha hend hb hend (by rw [hsame])
  exact ⟨a, hP, hQ⟩

/-- All that is known of the readings of a text holds of one value. -/
theorem unique (hpred : Predictive p) (h : Phrase p s P) (h' : Phrase p s Q) : ∃ a, P a ∧ Q a :=
  unique_front hpred h h' (Or.inr rfl) (Or.inr rfl) (fun _ => by rw [Lexed.from])
    (fun _ => by rw [Lexed.from]) rfl

end Unique

/-! ## Paths -/

section Paths

variable {s t : String} {P : TypeTree → Prop} {Q : PathTree → Prop}

/-- A name is a segment. -/
theorem name_segment {name : String} (h : IsName name.toList) :
    Phrase Syntax.segment name (· = .name name) :=
  .left (.map (.name h) fun _ htok => congrArg SegmentTree.name htok)

/-- A type as a trait in angle brackets is a segment. -/
theorem qualified_segment (hty : Phrase Syntax.ty s P) (hpath : Phrase Syntax.path t Q) :
    Phrase Syntax.segment ("<" ++ s ++ " as " ++ t ++ ">") fun segment =>
      ∃ ty path, segment = .qualified ty path ∧ P ty ∧ Q path := by
  have hbehind := ((hpath.behind_kw .asKw).before_mark .angleClose (by decide)).blank_before
  have hall : Phrase (SegmentTree.qualified <$> (Syntax.mark .angleOpen *> Syntax.ty)
      <*> (Syntax.kw .asKw *> Syntax.path <* Syntax.mark .angleClose)) _ fun segment =>
        ∃ ty path, segment = .qualified ty path ∧ P ty ∧ Q path :=
    .map₂ (hty.behind_mark .angleOpen (by decide)) hbehind (.of_opening (.append .blank))
      fun ty path hty hpath => ⟨ty, path, rfl, hty, hpath⟩
  refine (Phrase.right hall).of_eq ?_
  simp [← String.toList_inj, Keyword.text, Mark.text]

/-- Texts that are segments are a path, with separators between them. -/
theorem segments {texts : List String} {R : String → SegmentTree → Prop} (hne : texts ≠ [])
    (h : ∀ text ∈ texts, Phrase Syntax.segment text (R text)) :
    Phrase Syntax.path (String.intercalate "::" texts) (List.Forall₂ R texts) := by
  have hsep : Phrase (Syntax.mark .pathSep) "::" fun _ => True := .mark .pathSep (by decide)
  have hpath := Phrase.separated hsep (.mark .pathSep) (.mark .pathSep) hne h
  rw [List.map_id'] at hpath
  exact .path hpath

end Paths

/-! ## Types -/

section Types

variable {s : String} {tys : List Ty} {P : TypeTree → Prop} {Q : PathTree → Prop}
  {R : Ty → TypeTree → Prop}

/-- The unit type. -/
theorem unit_ty : Phrase Syntax.ty "()" (· = .unit) := by
  have hclose : Phrase ((Syntax.mark .parenClose).giving TypeTree.unit) ")" (· = .unit) :=
    (Phrase.mark .parenClose (by decide)).giving rfl
  exact (Phrase.ty (.left (hclose.left.behind_mark .parenOpen (by decide)))).of_eq (by decide)

/-- The type of no value. -/
theorem never_ty : Phrase Syntax.ty "!" (· = .never) := by
  have hall : Phrase ((Syntax.mark .bang).giving TypeTree.never) "!" (· = .never) :=
    (Phrase.mark .bang (by decide)).giving rfl
  exact .ty (.right (.right (.right (.right (.left hall)))))

/-- References, mutable or not. -/
theorem ref_ty {mutable : Bool} (h : Phrase Syntax.ty s P) :
    Phrase Syntax.ty ((if mutable then "&mut " else "&") ++ s) fun tree =>
      ∃ pointee, tree = .ref mutable pointee ∧ P pointee := by
  have hall : Phrase (TypeTree.ref <$> (Syntax.mark .ampersand *> Syntax.present (Syntax.kw .mutKw))
      <*> Syntax.ty) ((if mutable then "&mut " else "&") ++ s) fun tree =>
        ∃ pointee, tree = .ref mutable pointee ∧ P pointee :=
    .map₂ (ampersand_phrase mutable) h (.of_closed (closed_ampersand mutable))
      fun found pointee hfound hpointee => ⟨pointee, by rw [hfound], hpointee⟩
  exact .ty (.right (.left hall))

/-- Arguments in angle brackets, or none. -/
theorem type_args (h : ∀ ty ∈ tys, Phrase Syntax.ty ty.render (R ty)) :
    Phrase Syntax.typeArgs (Ty.renderArgs (tys.map Ty.render)) (List.Forall₂ R tys) := by
  cases tys with
  | nil => exact .right (.pure .nil)
  | cons ty tys => exact .left (Phrase.angled (List.cons_ne_nil _ _) h)

/-- The further elements of a tuple, or the comma behind a single one. -/
theorem tuple_rest (h : ∀ ty ∈ tys, Phrase Syntax.ty ty.render (R ty)) (first : String) :
    ∃ text, Phrase Syntax.tupleRest text (List.Forall₂ R tys) ∧ Opening text ∧
      "(" ++ (first ++ text) = Ty.renderTuple (first :: tys.map Ty.render) := by
  cases tys with
  | nil =>
      have hclose : Phrase ((Syntax.mark .parenClose).giving ([] : List TypeTree)) ")"
          (List.Forall₂ R []) := (Phrase.mark .parenClose (by decide)).giving .nil
      refine ⟨_, hclose.left.behind_mark .comma (by decide), .append (.mark .comma), ?_⟩
      simp [← String.toList_inj, Mark.text, Ty.renderTuple]
  | cons ty tys =>
      have hmore := ((Phrase.commas (List.cons_ne_nil _ _) h).before_mark .parenClose
        (by decide)).blank_before
      refine ⟨_, hmore.right.behind_mark .comma (by decide), .append (.mark .comma), ?_⟩
      simp [← String.toList_inj, Mark.text, Ty.renderTuple]

/-- Tuples; the one of a single member has a comma behind it. -/
theorem tuple_ty {first : Ty} (hfirst : Phrase Syntax.ty first.render (R first))
    (h : ∀ ty ∈ tys, Phrase Syntax.ty ty.render (R ty)) :
    Phrase Syntax.ty (Ty.tuple (first :: tys)).render fun tree =>
      ∃ elem elems, tree = .tuple (elem :: elems) ∧ R first elem ∧ List.Forall₂ R tys elems := by
  obtain ⟨text, htext, hopening, hprinted⟩ := tuple_rest h first.render
  have hall : Phrase ((fun elem elems => TypeTree.tuple (elem :: elems)) <$> Syntax.ty <*>
      Syntax.tupleRest) (first.render ++ text) fun tree =>
        ∃ elem elems, tree = .tuple (elem :: elems) ∧ R first elem ∧ List.Forall₂ R tys elems :=
    .map₂ hfirst htext (.of_opening hopening) fun elem elems helem helems =>
      ⟨elem, elems, rfl, helem, helems⟩
  refine (Phrase.ty (.left (hall.right.behind_mark .parenOpen (by decide)))).of_eq ?_
  rw [Ty.render, Ty.renderAll, Ty.renderAll_eq_map]
  exact hprinted

/-- Types of function pointers. -/
theorem fn_ptr_ty {output : Ty} (h : ∀ ty ∈ tys, Phrase Syntax.ty ty.render (R ty))
    (houtput : Phrase Syntax.ty output.render P) :
    Phrase Syntax.ty (Ty.fnPtr tys output).render fun tree =>
      ∃ inputs out, tree = .fnPtr inputs out ∧ List.Forall₂ R tys inputs ∧ P out := by
  have hlist := (Phrase.kw .fnKw).seq_right (Phrase.parenthesised h)
    (.of_opening (.append (.append (.mark .parenOpen))))
  have harrow := (houtput.blank_before.behind_mark .arrow (by decide)).blank_before
  have hall : Phrase (TypeTree.fnPtr <$> (Syntax.kw .fnKw *> Syntax.parenthesised Syntax.ty)
      <*> (Syntax.mark .arrow *> Syntax.ty)) _ fun tree =>
        ∃ inputs out, tree = .fnPtr inputs out ∧ List.Forall₂ R tys inputs ∧ P out :=
    .map₂ hlist harrow (.of_opening (.append .blank)) fun inputs out hinputs hout =>
      ⟨inputs, out, rfl, hinputs, hout⟩
  refine (Phrase.ty (.right (.right (.left hall)))).of_eq ?_
  simp [← String.toList_inj, Keyword.text, Mark.text, Ty.render, Ty.renderAll_eq_map]

/-- Types of function items. -/
theorem fn_def_ty {callee : DefId} (hpath : Phrase Syntax.path callee.symbol Q)
    (h : ∀ ty ∈ tys, Phrase Syntax.ty ty.render (R ty)) :
    Phrase Syntax.ty (Ty.fnDef callee tys).render fun tree =>
      ∃ path args, tree = .fnDef path args ∧ Q path ∧ List.Forall₂ R tys args := by
  have hall : Phrase (TypeTree.fnDef <$> (Syntax.kw .fndefKw *> Syntax.path) <*> Syntax.typeArgs) _
      fun tree => ∃ path args, tree = .fnDef path args ∧ Q path ∧ List.Forall₂ R tys args :=
    .map₂ (hpath.behind_kw .fndefKw) (type_args h) (joint_render_args _ _)
      fun path args hpath hargs => ⟨path, args, rfl, hpath, hargs⟩
  refine (Phrase.ty (.right (.right (.right (.left hall))))).of_eq ?_
  simp [Keyword.text, Ty.render, Ty.renderAll_eq_map]

/-- Paths with arguments. -/
theorem named_ty (hpath : Phrase Syntax.path s Q)
    (h : ∀ ty ∈ tys, Phrase Syntax.ty ty.render (R ty)) :
    Phrase Syntax.ty (s ++ Ty.renderArgs (tys.map Ty.render)) fun tree =>
      ∃ region path args, tree = .named region path args ∧ Q path ∧ List.Forall₂ R tys args := by
  have hpair : Phrase (Prod.mk <$> Syntax.path <*> Syntax.typeArgs) _ fun found =>
      Q found.1 ∧ List.Forall₂ R tys found.2 :=
    .map₂ hpath (type_args h) (joint_render_args _ _) fun _ _ hpath hargs => ⟨hpath, hargs⟩
  have hall : Phrase Syntax.namedTy _ fun tree =>
      ∃ region path args, tree = .named region path args ∧ Q path ∧ List.Forall₂ R tys args :=
    (hpair.spanned fun _ h => h).map fun found hfound => ⟨_, _, _, rfl, hfound⟩
  exact .ty (.right (.right (.right (.right (.right hall)))))

end Types

end Phrase

end MirAudit.Source
