import MirAudit.Instance
import MirAudit.Proofs.Source.Legible

/-!
# Names of instances

The name of an instance is a path with the type arguments behind it, in the place of a segment. Such
names have a grammar of their own, `instanceName`, in which one token of lookahead tells a segment
`<Type as Trait>` from type arguments. So instances with legible symbols and arguments differ in
their names, and also in their keys: `Instance.Legible.eq_of_name`, `Instance.Legible.eq_of_key`.
-/

namespace MirAudit

namespace Source

open Gram

/-! ## The grammar of names -/

/-- A piece of a name: a segment of the symbol, or the type arguments. -/
inductive NamePiece where
  | segment (segment : SegmentTree)
  | args (args : List TypeTree)

/-- What is said by a piece. -/
def NamePiece.reading : NamePiece → String ⊕ List Ty
  | .segment tree => .inl tree.text
  | .args trees => .inr (literalAll trees)

/-- What follows an opening bracket and a type: the trait of a segment, or more arguments. -/
def pieceRest : Syntax.Part (TypeTree → NamePiece) :=
  (fun path ty => .segment (.qualified ty path)) <$> (Syntax.kw .asKw *> Syntax.path)
    <|> (fun tys ty => .args (ty :: tys)) <$> .many (Syntax.mark .comma *> Syntax.ty)

/-- A piece of a name. -/
def namePiece : Syntax.Part NamePiece :=
  (fun tok => .segment (.name tok.string)) <$> .token .name
    <|> (fun ty build => build ty) <$> (Syntax.mark .angleOpen *> Syntax.ty)
      <*> (pieceRest <* Syntax.mark .angleClose)

/-- The name of an instance. -/
def instanceName : Syntax.Part (List NamePiece) :=
  Syntax.separated .pathSep namePiece

theorem predictive_instance_name : Phrase.Predictive instanceName := by
  decide

section Derivations

variable {ts : List Token}

theorem derives_segment_piece {segment : SegmentTree}
    (h : Derives Syntax.definition Syntax.segment ts segment) :
    Derives Syntax.definition namePiece ts (.segment segment) := by
  rcases derives_choice_iff.mp h with hname | hqualified
  · obtain ⟨tok, htok, rfl⟩ := derives_map_iff.mp hname
    exact .left (derives_map_iff.mpr ⟨tok, htok, rfl⟩)
  · obtain ⟨us, vs, _, path, rfl, hopened, hpath, rfl⟩ := derives_ap_iff.mp hqualified
    obtain ⟨ty, hty, rfl⟩ := derives_map_iff.mp hopened
    obtain ⟨ws, closing, tok, rfl, hpath, hclose⟩ := derives_seq_left_iff.mp hpath
    have hrest : Derives Syntax.definition pieceRest ws fun ty => .segment (.qualified ty path) :=
      .left (derives_map_iff.mpr ⟨path, hpath, rfl⟩)
    exact .right (derives_ap_iff.mpr ⟨us, ws ++ closing, _, _, rfl,
      derives_map_iff.mpr ⟨ty, hty, rfl⟩,
      derives_seq_left_iff.mpr ⟨ws, closing, tok, rfl, hrest, hclose⟩, rfl⟩)

theorem derives_args_piece {args : List TypeTree}
    (h : Derives Syntax.definition (Syntax.angled Syntax.ty) ts args) :
    Derives Syntax.definition namePiece ts (.args args) := by
  obtain ⟨_, closing, tok, rfl, hopened, hclose⟩ := derives_seq_left_iff.mp h
  obtain ⟨opening, _, first, rfl, hopen, hlist⟩ := derives_seq_right_iff.mp hopened
  obtain ⟨us, vs, _, tys, rfl, hhead, htys, rfl⟩ := derives_ap_iff.mp hlist
  obtain ⟨ty, hty, rfl⟩ := derives_map_iff.mp hhead
  have hrest : Derives Syntax.definition pieceRest vs fun ty => .args (ty :: tys) :=
    .right (derives_map_iff.mpr ⟨tys, htys, rfl⟩)
  have hfirst :
      Derives Syntax.definition (Syntax.mark .angleOpen *> Syntax.ty) (opening ++ us) ty :=
    derives_seq_right_iff.mpr ⟨opening, us, first, rfl, hopen, hty⟩
  exact .right (derives_ap_iff.mpr ⟨opening ++ us, vs ++ closing, _, _, by simp,
    derives_map_iff.mpr ⟨ty, hfirst, rfl⟩,
    derives_seq_left_iff.mpr ⟨vs, closing, tok, rfl, hrest, hclose⟩, rfl⟩)

end Derivations

/-- What is said by the pieces of a name: the segments of the symbol, and the arguments if there are
any. -/
def readings (texts : List String) (args : List Ty) : List (String ⊕ List Ty) :=
  texts.map .inl ++ if args = [] then [] else [.inr args]

theorem readings_injective {texts texts' : List String} {args args' : List Ty}
    (h : readings texts args = readings texts' args') : texts = texts' ∧ args = args' := by
  have hlefts (texts : List String) (args : List Ty) :
      (readings texts args).filterMap Sum.getLeft? = texts := by
    unfold readings
    split <;> simp [List.filterMap_map, Function.comp_def]
  have hrights (texts : List String) (args : List Ty) :
      (readings texts args).flatMap (Sum.elim (fun _ => []) id) = args := by
    unfold readings
    split <;> simp_all [List.flatMap_map]
  constructor
  · rw [← hlefts texts args, h, hlefts]
  · rw [← hrights texts args, h, hrights]

/-- The text of a piece. -/
def renderPiece : String ⊕ List Ty → String
  | .inl text => text
  | .inr args => "<" ++ String.intercalate ", " (args.map Ty.render) ++ ">"

/-- The pieces of a name, with separators between them. -/
theorem intercalate_readings {texts : List String} (hne : texts ≠ []) (args : List Ty) :
    String.intercalate "::" ((readings texts args).map renderPiece) = String.intercalate "::" texts ++
      if args = [] then "" else "::" ++ renderPiece (.inr args) := by
  have htexts : (texts.map Sum.inl).map renderPiece = texts := by
    rw [List.map_map]
    exact List.map_id texts
  unfold readings
  rw [List.map_append, htexts]
  split
  next => rw [List.map_nil, List.append_nil, String.append_empty]
  next =>
    rw [List.map_singleton, String.intercalate_append_of_ne_nil hne (List.cons_ne_nil _ _),
      String.intercalate_singleton, String.append_assoc]

theorem LegibleSegment.piece {text : String} (h : LegibleSegment text) :
    Phrase namePiece text fun piece => piece.reading = .inl text := by
  obtain ⟨ts, segment, hreads, hderives, htext⟩ := h
  refine ⟨ts, _, hreads, derives_segment_piece hderives, ?_⟩
  exact show Sum.inl _ = _ by rw [htext]

/-- Types without parameters are read as themselves. -/
theorem literal_all_concrete_of_forall {tys : List Ty} {trees : List TypeTree}
    (hconcrete : ∀ ty ∈ tys, ty.hasParam = false)
    (h : List.Forall₂ (fun ty tree => tree.literal = ty.literal) tys trees) :
    literalAll trees = tys := by
  rw [literal_all_eq_of_forall h]
  refine Ty.literal_all_concrete ?_
  rw [Ty.anyHasParam_eq_any, List.any_eq_false]
  exact fun ty hty => Bool.not_eq_true _ ▸ hconcrete ty hty

theorem args_piece {args : List Ty} (hne : args ≠ []) (hlegible : ∀ arg ∈ args, arg.Legible)
    (hconcrete : ∀ arg ∈ args, arg.hasParam = false) :
    Phrase namePiece (renderPiece (.inr args)) fun piece => piece.reading = .inr args := by
  obtain ⟨ts, trees, hreads, hderives, htrees⟩ :=
    Phrase.angled hne fun arg harg => (hlegible arg harg).phrase
  refine ⟨ts, _, hreads, derives_args_piece hderives, ?_⟩
  exact show Sum.inr _ = _ by rw [literal_all_concrete_of_forall hconcrete htrees]

end Source

open Source

namespace Instance

/-- The names in the symbol and in the arguments are spelled as such, and no argument has a
parameter. -/
structure Legible (i : Instance) : Prop where
  crate : IsName i.defId.crate.toList
  path : LegiblePath i.defId.path
  args : ∀ arg ∈ i.args, arg.Legible
  concrete : ∀ arg ∈ i.args, arg.hasParam = false

/-- The name is the symbol with the arguments behind it, if there are any. -/
theorem name_eq (i : Instance) : i.name = i.defId.symbol ++
    if i.args = [] then "" else "::" ++ renderPiece (.inr i.args) := by
  unfold name
  cases i.args with
  | nil => rw [if_pos rfl, String.append_empty]
  | cons arg args =>
      simp [← String.toList_inj, renderPiece]

namespace Legible

variable {i j : Instance}

/-- The name is read as the segments of the symbol and the arguments, if there are any. -/
theorem name_phrase (h : i.Legible) : ∃ texts, i.defId = DefId.ofTexts texts ∧
    Phrase instanceName i.name fun pieces =>
      pieces.map NamePiece.reading = readings texts i.args := by
  obtain ⟨texts, hne, hall, htext⟩ := h.path
  have hsegments := List.forall_mem_cons.mpr ⟨LegibleSegment.name h.crate, hall⟩
  refine ⟨i.defId.crate :: texts, by rw [DefId.ofTexts, htext], ?_⟩
  have hpieces : ∀ piece ∈ readings (i.defId.crate :: texts) i.args,
      Phrase namePiece (renderPiece piece) fun found => found.reading = piece := by
    intro piece hpiece
    rcases List.mem_append.mp hpiece with hpiece | hpiece
    · obtain ⟨text, htext, rfl⟩ := List.mem_map.mp hpiece
      exact (hsegments text htext).piece
    · split at hpiece
      next => exact absurd hpiece List.not_mem_nil
      next hargs =>
        obtain rfl := List.mem_singleton.mp hpiece
        exact args_piece hargs h.args h.concrete
  have hsep : Phrase (Syntax.mark .pathSep) "::" fun _ => True := .mark .pathSep (by decide)
  have hname := Phrase.separated hsep (.mark .pathSep) (.mark .pathSep) (by simp [readings]) hpieces
  refine (hname.imp fun found hfound => ?_).of_eq ?_
  · rw [← List.forall₂_eq_eq_eq, List.forall₂_map_left_iff]
    exact hfound.flip.imp fun _ _ h => h
  · rw [intercalate_readings (List.cons_ne_nil _ _), String.intercalate_cons_of_ne_nil hne, htext,
      name_eq, DefId.symbol]

/-- Different legible instances have different names. -/
theorem eq_of_name (hi : i.Legible) (hj : j.Legible) (h : i.name = j.name) : i = j := by
  obtain ⟨texts, hid, hname⟩ := hi.name_phrase
  obtain ⟨texts', hid', hname'⟩ := hj.name_phrase
  obtain ⟨pieces, hpieces, hpieces'⟩ :=
    Phrase.unique predictive_instance_name hname (hname'.of_eq h.symm)
  obtain ⟨rfl, hargs⟩ := readings_injective (hpieces.symm.trans hpieces')
  cases i
  cases j
  rw [Instance.mk.injEq]
  exact ⟨hid.trans hid'.symm, hargs⟩

/-- The arguments in the key are read as they are. -/
theorem args_phrase (h : i.Legible) :
    Phrase (Syntax.orNothing (Syntax.separated .comma Syntax.ty))
      (String.intercalate "," (i.args.map Ty.render)) fun trees => literalAll trees = i.args := by
  by_cases hargs : i.args = []
  · rw [hargs]
    exact .right (.pure rfl)
  · have hcomma : Phrase (Syntax.mark .comma) "," fun _ => True := .mark .comma (by decide)
    have hlist := Phrase.separated hcomma (.mark .comma) (.mark .comma) hargs fun arg harg =>
      (h.args arg harg).phrase
    exact .left (hlist.imp fun _ => literal_all_concrete_of_forall h.concrete)

/-- Different legible instances have different keys. -/
theorem eq_of_key (hi : i.Legible) (hj : j.Legible) (h : i.key = j.key) : i = j := by
  have hkey (k : Instance) : k.key.toList = k.defId.symbol.toList ++
      '|' :: (String.intercalate "," (k.args.map Ty.render)).toList := by
    simp [key]
  -- no token starts with the bar, and no word runs over it
  have hbar (rest : List Char) (p : Position) : (Lexed.from p ('|' :: rest)).tokens = [] := by
    rw [Lexed.from]
    rfl
  have happart (text rest : List Char) : Apart text ('|' :: rest) := Or.inr rfl
  have hsame := congrArg String.toList h
  rw [hkey, hkey] at hsame
  obtain ⟨path, hpath, hpath'⟩ := Phrase.unique_front (by decide)
    (symbol_phrase_literal hi.crate hi.path) (symbol_phrase_literal hj.crate hj.path)
    (happart _ _) (happart _ _) (hbar _) (hbar _) hsame
  have hid : i.defId = j.defId := hpath.symm.trans hpath'
  rw [hid, List.append_cancel_left_eq, List.cons.injEq, String.toList_inj] at hsame
  obtain ⟨trees, htrees, htrees'⟩ :=
    Phrase.unique (by decide) hi.args_phrase (hj.args_phrase.of_eq hsame.2.symm)
  cases i
  cases j
  rw [Instance.mk.injEq]
  exact ⟨hid, htrees.symm.trans htrees'⟩

end Legible

end Instance

end MirAudit
