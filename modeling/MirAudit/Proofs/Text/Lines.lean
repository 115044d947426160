import MirAudit.Text.Digits
import Mathlib.Data.List.Basic

/-!
# Lines of texts

A text splits into its lines, each with its line end, and lines can be taken out of it. `Splits` says
how the front of a text splits, whatever follows it, so that texts one after another are split one
after another. Every member of a joined text stands in it.
-/

namespace MirAudit

/-! ## Joined texts -/

/-- A member of a joined text stands in it. -/
theorem exists_append_of_mem_intercalate (sep : String) {text : String} {texts : List String}
    (h : text ∈ texts) : ∃ before behind, sep.intercalate texts = before ++ text ++ behind := by
  induction texts with
  | nil => exact absurd h List.not_mem_nil
  | cons first rest ih =>
      cases rest with
      | nil =>
          obtain rfl := List.mem_singleton.mp h
          exact ⟨"", "", by rw [String.intercalate_singleton, String.empty_append,
            String.append_empty]⟩
      | cons next rest =>
          rw [String.intercalate_cons_cons]
          rcases List.mem_cons.mp h with rfl | h
          · exact ⟨"", sep ++ sep.intercalate (next :: rest), by
              rw [String.empty_append, String.append_assoc]⟩
          · obtain ⟨before, behind, hrest⟩ := ih h
            exact ⟨first ++ sep ++ before, behind, by rw [hrest]; simp only [String.append_assoc]⟩

/-- A member of a joined text is no longer than the text. -/
theorem length_le_intercalate (sep : String) {text : String} {texts : List String}
    (h : text ∈ texts) : text.length ≤ (String.intercalate sep texts).length := by
  obtain ⟨before, behind, htext⟩ := exists_append_of_mem_intercalate sep h
  rw [htext, String.length_append, String.length_append]
  omega

/-- The text stands on one line. -/
def OneLine (s : String) : Prop :=
  '\n' ∉ s.toList

instance (s : String) : Decidable (OneLine s) :=
  inferInstanceAs (Decidable ('\n' ∉ s.toList))

namespace OneLine

variable {s t : String}

@[simp] theorem append_iff : OneLine (s ++ t) ↔ OneLine s ∧ OneLine t := by
  simp [OneLine]

theorem append (hs : OneLine s) (ht : OneLine t) : OneLine (s ++ t) :=
  append_iff.mpr ⟨hs, ht⟩

theorem nat (n : Nat) : OneLine (toString n) := by
  intro h
  rw [Nat.toString_eq_repr, Nat.toList_repr] at h
  exact absurd (Nat.isDigit_of_mem_toDigits (by decide) (by decide) h) (by decide)

theorem int (n : Int) : OneLine (toString n) := by
  cases n with
  | ofNat n => exact nat n
  | negSucc n => exact .append (by decide) (nat (n + 1))

theorem intercalate {texts : List String} (hs : OneLine s) (h : ∀ text ∈ texts, OneLine text) :
    OneLine (String.intercalate s texts) := by
  induction texts with
  | nil => exact List.not_mem_nil
  | cons first rest ih =>
      obtain ⟨hfirst, hrest⟩ := List.forall_mem_cons.mp h
      cases rest with
      | nil => rwa [String.intercalate_singleton]
      | cons next more =>
          rw [String.intercalate_cons_cons]
          exact (hfirst.append hs).append (ih hrest)

end OneLine

/-! ## Splitting -/

/-- The lines of a text with their line ends; the last line may be without one. -/
def textLines : List Char → List (List Char)
  | [] => []
  | c :: cs =>
    if c = '\n' then [c] :: textLines cs
    else
      match textLines cs with
      | [] => [[c]]
      | line :: lines => (c :: line) :: lines

theorem flatten_text_lines (cs : List Char) : (textLines cs).flatten = cs := by
  induction cs with
  | nil => rfl
  | cons c cs ih =>
      rw [textLines]
      split
      · rw [List.flatten_cons, ih]
        rfl
      · cases hlines : textLines cs with
        | nil =>
            rw [hlines] at ih
            rw [← ih]
            rfl
        | cons line lines =>
            rw [hlines] at ih
            rw [← ih]
            rfl

/-- The text splits into the pieces, whatever follows it. -/
def Splits (cs : List Char) (pieces : List (List Char)) : Prop :=
  ∀ rest, textLines (cs ++ rest) = pieces ++ textLines rest

namespace Splits

variable {cs ds : List Char} {pieces more : List (List Char)}

theorem nil : Splits [] [] :=
  fun _ => rfl

theorem append (hcs : Splits cs pieces) (hds : Splits ds more) :
    Splits (cs ++ ds) (pieces ++ more) := by
  intro rest
  rw [List.append_assoc, hcs, hds, List.append_assoc]

/-- The pieces make up the text. -/
theorem flatten (h : Splits cs pieces) : pieces.flatten = cs := by
  have hlines := h []
  rw [List.append_nil, textLines, List.append_nil] at hlines
  rw [← hlines, flatten_text_lines]

/-- A line with its end is a piece. -/
theorem line (h : '\n' ∉ cs) : Splits (cs ++ ['\n']) [cs ++ ['\n']] := by
  intro rest
  induction cs with
  | nil => rfl
  | cons c cs ih =>
      obtain ⟨hc, hcs⟩ := not_or.mp (List.mem_cons.not.mp h)
      rw [List.cons_append, List.cons_append, textLines, if_neg (Ne.symm hc), ih hcs]
      rfl

end Splits

end MirAudit
