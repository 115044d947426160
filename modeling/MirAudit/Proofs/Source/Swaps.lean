import MirAudit.Proofs.Source.Contexts
import MirAudit.Proofs.Source.Order

/-!
# Bodies in the place of others

A body may be replaced by another one that denotes the same. The items with the other body are
loaded too, as a program that agrees up to spans: `load_items_swapped`.
-/

namespace MirAudit.Source

variable {l : Loader} {signature : SignatureTree} {body body' : Spanned BodyTree}

/-- Behind the signature the second body denotes what the first one does. -/
def SameBody (outer : Scope) (signature : SignatureTree) (body body' : Spanned BodyTree) : Prop :=
  ∀ sig scope b, signature.lower outer = .ok (sig, scope) → BodyTree.lower scope sig body = .ok b →
    BodyTree.lower scope sig body' = .ok b

/-- What the signatures in front of the bodies of an item see: the crates, and `Self` in a trait. -/
def ItemTree.outer (s : Scope) : ItemTree → Scope
  | .trait _ _ => s.bind "Self" (.param "Self")
  | _ => s

theorem ItemTree.crates_outer (s : Scope) (item : ItemTree) : (item.outer s).crates = s.crates := by
  cases item <;> rfl

/-! ## Registrations -/

theorem FnSource.registrations_swapped (src : FnSource) {span : Span} {entry : Bool}
    {rs : List Registration} (hbody : src.body = some body)
    (hsame : SameBody src.outer src.signature body body')
    (hrs : src.registrations entry = .ok rs) :
    ∃ rs', { src with body := some body', span }.registrations entry = .ok rs' ∧
      rs'.map Registration.withoutSpans = rs.map Registration.withoutSpans := by
  obtain ⟨fn, hlower, rfl⟩ := Outcome.map_eq_ok.mp hrs
  obtain ⟨sig, scope, lowered, hsig, hlowered, rfl⟩ := FnSource.lower_eq_ok.mp hlower
  rw [hbody] at hlowered
  obtain ⟨b, hb, rfl⟩ := Outcome.map_eq_ok.mp hlowered
  have hswapped : lowerBody scope sig (some body') = .ok (some b) :=
    Outcome.map_eq_ok.mpr ⟨b, hsame _ _ _ hsig hb, rfl⟩
  have hfn : { src with body := some body', span }.lower = .ok _ :=
    FnSource.lower_eq_ok.mpr ⟨sig, scope, some b, hsig, hswapped, rfl⟩
  exact ⟨_, Outcome.map_eq_ok.mpr ⟨_, hfn, rfl⟩, rfl⟩

theorem of_trait_swapped {traitDef : DefId} {method method' : Spanned MethodTree}
    {rs : List Registration} (hmethod : method.value = ⟨signature, some body⟩)
    (hmethod' : method'.value = ⟨signature, some body'⟩)
    (hsame : SameBody (l.scope.bind "Self" (.param "Self")) signature body body')
    (hrs : (FnSource.ofTrait l traitDef method).registrations false = .ok rs) :
    ∃ rs', (FnSource.ofTrait l traitDef method').registrations false = .ok rs' ∧
      rs'.map Registration.withoutSpans = rs.map Registration.withoutSpans := by
  obtain ⟨tree, region⟩ := method
  obtain ⟨tree', region'⟩ := method'
  obtain rfl : tree = _ := hmethod
  obtain rfl : tree' = _ := hmethod'
  exact FnSource.registrations_swapped (.ofTrait l traitDef ⟨⟨signature, some body⟩, region⟩) rfl
    hsame hrs

/-- A list registers the same, up to spans, if one element is replaced by another one that does. -/
theorem map_m_swapped {α : Type} {g : α → Load (List Registration)} {a a' : α} {front back : List α}
    (h : ∀ rs, g a = .ok rs → ∃ rs', g a' = .ok rs' ∧
      rs'.map Registration.withoutSpans = rs.map Registration.withoutSpans)
    {rss : List (List Registration)} (hrss : (front ++ a :: back).mapM g = .ok rss) :
    ∃ rss', (front ++ a' :: back).mapM g = .ok rss' ∧
      rss'.flatten.map Registration.withoutSpans = rss.flatten.map Registration.withoutSpans := by
  let R (x y : α) : Prop := y = x ∨ x = a ∧ y = a'
  have hself (as : List α) : List.Forall₂ R as as := List.forall₂_same.mpr fun _ _ => Or.inl rfl
  have hall : List.Forall₂ R (front ++ a :: back) (front ++ a' :: back) :=
    List.rel_append (hself front) (.cons (Or.inr ⟨rfl, rfl⟩) (hself back))
  refine map_m_related hall ?_ hrss
  rintro x y (rfl | ⟨rfl, rfl⟩) rs hrs
  · exact ⟨rs, hrs, rfl⟩
  · exact h rs hrs

/-- An item with a body in the place of another one that denotes the same registers the same, up to
spans. -/
theorem registrations_swapped {item item' : Spanned ItemTree}
    (hswap : SwapsBody signature body body' item.value item'.value)
    (hsame : SameBody (item.value.outer l.scope) signature body body')
    {rs : List Registration} (hrs : registrations l item = .ok rs) :
    ∃ rs', registrations l item' = .ok rs' ∧
      rs'.map Registration.withoutSpans = rs.map Registration.withoutSpans := by
  obtain ⟨value, region⟩ := item
  obtain ⟨value', region'⟩ := item'
  change SwapsBody signature body body' value value' at hswap
  cases hswap with
  | free =>
      exact FnSource.registrations_swapped (.free l region signature body) rfl hsame hrs
  | @method name front method method' back hmethod hmethod' =>
      obtain ⟨rss, hrss, hrs⟩ := Outcome.bind_eq_ok.mp hrs
      obtain rfl := Outcome.pure_eq_ok.mp hrs
      have hhere (rs : List Registration) (hrs : (FnSource.ofTrait l (l.scope.localDef name.string)
          method).registrations false = .ok rs) := of_trait_swapped hmethod hmethod' hsame hrs
      obtain ⟨rss', hrss', hfns⟩ := map_m_swapped (g := fun tree =>
        (FnSource.ofTrait l (l.scope.localDef name.string) tree).registrations false) hhere hrss
      refine ⟨_, Outcome.bind_eq_ok.mpr ⟨rss', hrss', rfl⟩, ?_⟩
      rw [List.map_append, List.map_append, hfns]
      simp only [List.map_append, List.map_cons, List.map_nil, Registration.withoutSpans,
        TraitDecl.unspanned, hmethod, hmethod']

/-! ## Whole texts -/

theorem crate_name_swapped {item item' : Spanned ItemTree}
    (hswap : SwapsBody signature body body' item.value item'.value) :
    crateName? item' = crateName? item ∧ externalName? item' = externalName? item := by
  obtain ⟨value, region⟩ := item
  obtain ⟨value', region'⟩ := item'
  change SwapsBody signature body body' value value' at hswap
  cases hswap <;> exact ⟨rfl, rfl⟩

section Items

variable {file : Option String} {items items' front back : List (Spanned ItemTree)}
  {item item' : Spanned ItemTree} {p : Program}

/-- Items whose crates are declared in the same places share the same. -/
theorem loader_of_eq (hcrate : items'.filterMap crateName? = items.filterMap crateName?)
    (hexternal : items'.filterMap externalName? = items.filterMap externalName?)
    (file : Option String) :
    loaderOf file items' = loaderOf file items ∧ localCrateOf items' = localCrateOf items ∧
      (CratesFit items → CratesFit items') := by
  have hlocal : localCrateOf items' = localCrateOf items := by
    rw [localCrateOf, hcrate, localCrateOf]
  refine ⟨?_, hlocal, fun h => ⟨hcrate ▸ h.once, ?_⟩⟩
  · rw [loaderOf, loaderOf, cratesOf, cratesOf, hlocal, hexternal]
  · rw [hlocal, hexternal]
    exact h.apart

/-- Items with a body in the place of another one that denotes the same are loaded too, as a program
that agrees up to spans. -/
theorem load_items_swapped
    (hswap : SwapsBody signature body body' item.value item'.value)
    (hsame : SameBody (item.value.outer (loaderOf file (front ++ item :: back)).scope) signature
      body body')
    (h : loadItems file (front ++ item :: back) = .ok p) :
    ∃ q, loadItems file (front ++ item' :: back) = .ok q ∧ p.SameUpToSpans q := by
  obtain ⟨hcrate, hexternal⟩ := crate_name_swapped hswap
  obtain ⟨hloader, hlocal, hfit⟩ : loaderOf file (front ++ item' :: back) =
      loaderOf file (front ++ item :: back) ∧ _ :=
    loader_of_eq (by simp only [List.filterMap_append, List.filterMap_cons, hcrate])
      (by simp only [List.filterMap_append, List.filterMap_cons, hexternal]) file
  obtain ⟨hcrates, -⟩ := load_items_eq_ok.mp h
  refine load_items_agree h (hfit hcrates) hlocal fun rss hrss => ?_
  rw [hloader]
  obtain ⟨rss', hrss', hfns⟩ :=
    map_m_swapped (fun _ => registrations_swapped hswap hsame) hrss
  exact ⟨rss', hrss', hfns ▸ .refl _⟩

end Items

end MirAudit.Source
