import MirAudit.Proofs.Source.Places
import MirAudit.Source.Load

/-!
# Bodies inside items

The tokens of a body stand somewhere in the tokens of its item, and tokens of any other body may
stand there instead: `inside_program`. `Gram.Inside` says this of a part of a grammar inside another
one, with a lemma for each form of a grammar on the way to the inner part.
-/

namespace MirAudit.Source

namespace Gram

variable {N : Type} {ρ : N → Type} {α β γ : Type}

/-- Among the tokens of `p` there are some that `q` yields with the value `b`. Whatever tokens `q`
yields instead, with a value `b'`, the tokens around them stay and `p` yields a value of which
`R b'` holds. -/
def Inside (rules : (n : N) → Gram ρ (ρ n)) (p : Gram ρ α) (q : Gram ρ β) (ts : List Token) (b : β)
    (R : β → α → Prop) : Prop :=
  ∃ before mid after, ts = before ++ (mid ++ after) ∧ Derives rules q mid b ∧
    ∀ us b', Derives rules q us b' → ∃ a, Derives rules p (before ++ (us ++ after)) a ∧ R b' a

variable {rules : (n : N) → Gram ρ (ρ n)} {p p' : Gram ρ α} {q : Gram ρ β} {r : Gram ρ γ}
  {ts us vs : List Token} {b : β} {R : β → α → Prop} {R' : β → γ → Prop}

/-- Two repetitions one after another are one. -/
theorem derives_many_append {as as' : List α} (hus : Derives rules (.many p) us as)
    (hvs : Derives rules (.many p) vs as') : Derives rules (.many p) (us ++ vs) (as ++ as') := by
  obtain ⟨parts, hparts, rfl⟩ := derives_many_iff.mp hus
  obtain ⟨parts', hparts', rfl⟩ := derives_many_iff.mp hvs
  exact derives_many_iff.mpr
    ⟨parts ++ parts', List.rel_append hparts hparts', List.flatten_append.symm⟩

namespace Inside

/-- A part is inside itself. -/
theorem here (h : Derives rules q ts b) : Inside rules q q ts b fun b' a => a = b' :=
  ⟨[], ts, [], by simp, h, fun us b' hus => ⟨b', by simpa using hus, rfl⟩⟩

/-- Inside a part that stands between other tokens of a larger part. -/
theorem between (h : Inside rules p q ts b R)
    (hr : ∀ ws b' a, Derives rules p ws a → R b' a →
      ∃ c, Derives rules r (us ++ (ws ++ vs)) c ∧ R' b' c) :
    Inside rules r q (us ++ (ts ++ vs)) b R' := by
  obtain ⟨before, mid, after, rfl, hmid, hswap⟩ := h
  refine ⟨us ++ before, mid, after ++ vs, by simp only [List.append_assoc], hmid,
    fun ws b' hws => ?_⟩
  obtain ⟨a, ha, hR⟩ := hswap ws b' hws
  have hall := hr _ b' a ha hR
  simp only [List.append_assoc] at hall ⊢
  exact hall

/-- Inside a part that is all of a larger part. -/
theorem around (h : Inside rules p q ts b R)
    (hr : ∀ ws b' a, Derives rules p ws a → R b' a → ∃ c, Derives rules r ws c ∧ R' b' c) :
    Inside rules r q ts b R' := by
  have hall : Inside rules r q ([] ++ (ts ++ [])) b R' :=
    h.between fun ws b' a ha hR => by simpa using hr ws b' a ha hR
  simpa using hall

/-- A context of which more is known. -/
theorem imp {R' : β → α → Prop} (h : Inside rules p q ts b R) (himp : ∀ b' a, R b' a → R' b' a) :
    Inside rules p q ts b R' :=
  h.around fun _ b' a ha hR => ⟨a, ha, himp b' a hR⟩

/-- Inside the first part of a choice. -/
theorem left (h : Inside rules p q ts b R) : Inside rules (p <|> p') q ts b R :=
  h.around fun _ _ a ha hR => ⟨a, .left ha, hR⟩

/-- Inside the second part of a choice. -/
theorem right (h : Inside rules p q ts b R) : Inside rules (p' <|> p) q ts b R :=
  h.around fun _ _ a ha hR => ⟨a, .right ha, hR⟩

/-- Inside what a function is applied to. -/
theorem map {f : α → γ} (h : Inside rules p q ts b R) (hf : ∀ b' a, R b' a → R' b' (f a)) :
    Inside rules (f <$> p) q ts b R' :=
  h.around fun _ b' a ha hR => ⟨f a, .map ha, hf b' a hR⟩

/-- Inside what is derived with its span, of which nothing is said. -/
theorem spanned {R' : β → Spanned α → Prop} (h : Inside rules p q ts b R)
    (hR' : ∀ b' a, R b' a.value → R' b' a) : Inside rules (.spanned p) q ts b R' :=
  h.around fun _ b' a ha hR => ⟨_, .spanned ha, hR' b' ⟨a, _⟩ hR⟩

/-- Inside what a function is applied to that was yielded before it. -/
theorem ap {f : Gram ρ (α → γ)} {build : α → γ} (hf : Derives rules f us build)
    (h : Inside rules p q ts b R) (hbuild : ∀ b' a, R b' a → R' b' (build a)) :
    Inside rules (f <*> p) q (us ++ ts) b R' := by
  have hall : Inside rules (f <*> p) q (us ++ (ts ++ [])) b R' :=
    h.between fun ws b' a ha hR => by
      rw [List.append_nil]
      exact ⟨build a, derives_ap_iff.mpr ⟨us, ws, build, a, rfl, hf, ha, rfl⟩, hbuild b' a hR⟩
  rwa [List.append_nil] at hall

/-- Inside the first of two parts of which only it is kept. -/
theorem seq_left {c : γ} (h : Inside rules p q ts b R) (hr : Derives rules r vs c) :
    Inside rules (p <* r) q (ts ++ vs) b R :=
  have hall : Inside rules (p <* r) q ([] ++ (ts ++ vs)) b R :=
    h.between fun ws _ a ha hR => ⟨a, derives_seq_left_iff.mpr ⟨ws, vs, c, rfl, ha, hr⟩, hR⟩
  hall

/-- Inside a member of a repetition. -/
theorem many {as as' : List α} (hfront : Derives rules (.many p) us as)
    (h : Inside rules p q ts b R) (hback : Derives rules (.many p) vs as') :
    Inside rules (.many p) q (us ++ (ts ++ vs)) b fun b' found =>
      ∃ a, R b' a ∧ found = as ++ a :: as' :=
  h.between fun _ _ a ha hR =>
    ⟨_, derives_many_append hfront (.manyCons ha hback), a, hR, rfl⟩

end Inside

/-- A member of a repetition has tokens of its own, between those of the others. -/
theorem exists_of_derives_many {front back : List α} {a : α}
    (h : Derives rules (.many p) ts (front ++ a :: back)) :
    ∃ us ws vs, ts = us ++ (ws ++ vs) ∧ Derives rules (.many p) us front ∧ Derives rules p ws a ∧
      Derives rules (.many p) vs back := by
  obtain ⟨parts, hparts, rfl⟩ := derives_many_iff.mp h
  obtain ⟨fronts, rest, rfl, hfronts, hrest⟩ := split_of_forall₂ hparts.flip
  obtain ⟨part, backs, hpart, hbacks, rfl⟩ := List.forall₂_cons_left_iff.mp hrest
  exact ⟨fronts.flatten, part, backs.flatten, List.flatten_append,
    derives_many_iff.mpr ⟨fronts, hfronts.flip, rfl⟩, hpart,
    derives_many_iff.mpr ⟨backs, hbacks.flip, rfl⟩⟩

end Gram

/-! ## Bodies -/

/-- The bodies of a free function and of the methods of a trait, each with the path and the
signature of its function. -/
def ItemTree.bodies : ItemTree → List (String × SignatureTree × Spanned BodyTree)
  | .fn _ signature body => [(signature.name.string, signature, body)]
  | .trait name methods => methods.filterMap fun method =>
    method.value.body.map fun body =>
      (methodPath name.string method.value.signature.name.string, method.value.signature, body)
  | _ => []

/-- `item'` is `item` with `body'` in the place of `body`, which is the body of a function with this
signature. -/
inductive SwapsBody (signature : SignatureTree) (body body' : Spanned BodyTree) :
    ItemTree → ItemTree → Prop where
  | free {entry} :
      SwapsBody signature body body' (.fn entry signature body) (.fn entry signature body')
  | method {name front method method' back} :
      method.value = ⟨signature, some body⟩ →
      method'.value = ⟨signature, some body'⟩ →
      SwapsBody signature body body' (.trait name (front ++ method :: back))
        (.trait name (front ++ method' :: back))

section Bodies

open Gram Syntax

variable {ts : List Token} {path : String} {signature : SignatureTree} {body : Spanned BodyTree}

/-- The body of a method can be exchanged for another. -/
theorem inside_method {method : Spanned MethodTree} (h : Derives definition traitMethod ts method)
    (hmethod : method.value = ⟨signature, some body⟩) :
    Inside definition traitMethod Syntax.body ts body fun body' method' =>
      method'.value = ⟨signature, some body'⟩ := by
  obtain ⟨tree, region⟩ := method
  obtain rfl : tree = _ := hmethod
  obtain ⟨hvalue, -⟩ := derives_spanned_iff.mp h
  obtain ⟨us, vs, _, _, rfl, hbuild, hfound, htree⟩ := derives_ap_iff.mp hvalue
  obtain ⟨written, -, rfl⟩ := derives_map_iff.mp hbuild
  obtain ⟨rfl, rfl⟩ := MethodTree.mk.inj htree
  rcases derives_choice_iff.mp hfound with hnone | hsome
  · cases (derives_giving_iff.mp hnone).2
  · obtain ⟨_, htree, ⟨⟩⟩ := derives_map_iff.mp hsome
    have hlast : Inside definition ((mark .semicolon).giving none <|> some <$> Syntax.body)
        Syntax.body vs body fun body' found => found = some body' :=
      .right (.map (.here htree) fun _ _ heq => congrArg some heq)
    refine .spanned (R := fun body' tree => tree = ⟨written, some body'⟩)
      (.ap hbuild hlast ?_) fun _ _ heq => heq
    rintro body' _ rfl
    rfl

/-- The body of a function of an item can be exchanged for another. -/
theorem inside_item {item : Spanned ItemTree} (h : Derives definition Syntax.item ts item)
    (hbody : (path, signature, body) ∈ item.value.bodies) :
    Inside definition Syntax.item Syntax.body ts body fun body' item' =>
      SwapsBody signature body body' item.value item'.value := by
  obtain ⟨tree, region⟩ := item
  obtain ⟨hvalue, -⟩ := derives_spanned_iff.mp h
  refine .spanned (R := fun body' tree' => SwapsBody signature body body' tree tree') ?_
    fun _ _ h => h
  change (path, signature, body) ∈ tree.bodies at hbody
  change Derives definition _ ts tree at hvalue
  clear h
  -- items of the other kinds have no bodies of this kind
  rcases derives_choice_iff.mp hvalue with hcrate | hvalue
  · obtain ⟨_, -, rfl⟩ := derives_map_iff.mp hcrate
    exact absurd hbody List.not_mem_nil
  rcases derives_choice_iff.mp hvalue with hextern | hvalue
  · obtain ⟨_, _, _, -, -, hextern⟩ := derives_seq_right_iff.mp hextern
    rcases derives_choice_iff.mp hextern with hcrate | hfn
    · obtain ⟨_, _, _, _, -, hbuild, -, rfl⟩ := derives_ap_iff.mp hcrate
      obtain ⟨_, -, rfl⟩ := derives_map_iff.mp hbuild
      exact absurd hbody List.not_mem_nil
    · obtain ⟨_, -, rfl⟩ := derives_map_iff.mp hfn
      exact absurd hbody List.not_mem_nil
  rcases derives_choice_iff.mp hvalue with hstruct | hvalue
  · obtain ⟨_, _, _, _, -, hbuild, -, rfl⟩ := derives_ap_iff.mp hstruct
    obtain ⟨_, -, rfl⟩ := derives_map_iff.mp hbuild
    exact absurd hbody List.not_mem_nil
  rcases derives_choice_iff.mp hvalue with htrait | hvalue
  · obtain ⟨us, vs, _, methods, rfl, hbuild, hmethods, rfl⟩ := derives_ap_iff.mp htrait
    obtain ⟨name, -, rfl⟩ := derives_map_iff.mp hbuild
    obtain ⟨_, _, _, rfl, hmethods, hclose⟩ := derives_seq_left_iff.mp hmethods
    obtain ⟨method, hmem, hmethod⟩ := List.mem_filterMap.mp hbody
    obtain ⟨_, hfound, ⟨⟩⟩ := Option.map_eq_some_iff.mp hmethod
    have hsame : method.value = ⟨method.value.signature, some body⟩ :=
      congrArg (MethodTree.mk method.value.signature) hfound
    obtain ⟨front, back, rfl⟩ := List.mem_iff_append.mp hmem
    obtain ⟨_, _, _, rfl, hfront, hhere, hback⟩ := exists_of_derives_many hmethods
    refine .right (.right (.right (.left (.ap hbuild (.seq_left (.many hfront
      (inside_method hhere hsame) hback) hclose) ?_))))
    rintro body' _ ⟨method', hmethod', rfl⟩
    exact .method hsame hmethod'
  rcases derives_choice_iff.mp hvalue with himpl | hfn
  · obtain ⟨_, _, _, _, -, hbuild, -, rfl⟩ := derives_ap_iff.mp himpl
    obtain ⟨_, _, _, _, -, hpath, -, rfl⟩ := derives_ap_iff.mp hbuild
    obtain ⟨_, -, rfl⟩ := derives_map_iff.mp hpath
    exact absurd hbody List.not_mem_nil
  · obtain ⟨us, vs, _, found, rfl, hbuild, hfound, rfl⟩ := derives_ap_iff.mp hfn
    obtain ⟨_, _, _, _, -, hentry, -, rfl⟩ := derives_ap_iff.mp hbuild
    obtain ⟨_, -, rfl⟩ := derives_map_iff.mp hentry
    obtain ⟨-, rfl, rfl⟩ : _ ∧ signature = _ ∧ body = _ := by
      simpa [ItemTree.bodies] using hbody
    refine .right (.right (.right (.right (.right (.ap hbuild (.here hfound) ?_)))))
    rintro body' _ rfl
    exact .free

/-- The body of a function of one item can be exchanged, and the other items stay. -/
theorem inside_program {items : List (Spanned ItemTree)} {item : Spanned ItemTree}
    (h : Derives definition program ts items) (hitem : item ∈ items)
    (hbody : (path, signature, body) ∈ item.value.bodies) :
    Inside definition program Syntax.body ts body fun body' items' => ∃ front item' back,
      items = front ++ item :: back ∧ items' = front ++ item' :: back ∧
        SwapsBody signature body body' item.value item'.value := by
  obtain ⟨front, back, rfl⟩ := List.mem_iff_append.mp hitem
  obtain ⟨_, _, _, rfl, hfront, hhere, hback⟩ := exists_of_derives_many h
  refine (Inside.many hfront (inside_item hhere hbody) hback).imp ?_
  rintro body' _ ⟨item', hitem', rfl⟩
  exact ⟨front, item', back, rfl, rfl, hitem'⟩

end Bodies

end MirAudit.Source
