import MirAudit.Proofs.Program.Independence
import MirAudit.Proofs.Source.Ensures
import MirAudit.Proofs.Source.Load
import MirAudit.Proofs.Source.Reference

/-!
# Resolution in accepted texts

In a program that was read from a text, resolution fails with findings alone. What it gives resolves
to itself and has a body, unless its function is extern: `resolve_of_text`. The reason is that a
text gives every impl the bodies of its methods (`Ensures.complete_item`), and that impls name
functions which stand alone.
-/

namespace MirAudit

/-- What is resolved stands alone, or is a method of a trait with a body of its own. -/
theorem Environment.resolve_stands {env : Environment} {id : DefId} {args : List Ty} {i : Instance}
    (henv : env.Coherent) (h : env.resolve id args = .ok i) :
    ∃ fn, env.fnDecl i.defId = some fn ∧ i.args.length = fn.generics.length ∧
      (fn.traitDef = none ∨ fn.body.isSome = true) := by
  obtain ⟨fn, hfn, harity, -, ⟨-, hstands⟩ | ⟨_, _, _, _, -, himpl⟩⟩ := resolve_cases henv.def_id h
  · exact ⟨fn, hfn, harity, hstands⟩
  · exact ⟨fn, hfn, harity, Or.inl (henv.impl_fn himpl hfn)⟩

namespace Source

/-! ## What stands in a text -/

/-- Every method of an impl has a body. -/
def ItemTree.Complete : ItemTree → Prop
  | .impl _ _ methods => ∀ method ∈ methods, method.value.body.isSome = true
  | .crate _ | .externCrate _ _ | .externFn _ | .struct _ _ | .trait _ _ | .fn _ _ _ => True

/-- An item that is read is complete. -/
theorem Ensures.complete_item :
    Ensures (fun _ _ => True) Syntax.item fun item => item.value.Complete := by
  have hmethod : Ensures (fun _ _ => True) Syntax.implMethod
      fun method => method.value.body.isSome = true :=
    .spanned (G := fun method : MethodTree => method.body.isSome = true)
      (.map₂ (.trivially _) (.map (K := fun body => body.isSome = true) (.trivially _)
        fun _ _ => rfl) fun _ _ _ hbody => hbody) fun _ hbody => hbody
  refine .spanned (G := ItemTree.Complete)
    (.choice ?crate (.choice ?foreign (.choice ?struct (.choice ?trait (.choice ?impl ?fn)))))
    fun _ hcomplete => hcomplete
  case crate => exact .map (.trivially _) fun _ _ => trivial
  case foreign =>
    exact .seq_right (.kw .externKw) (.choice
      (.map₂ (.trivially _) (.trivially _) fun _ _ _ _ => trivial)
      (.map (.trivially _) fun _ _ => trivial))
  case struct => exact .map₂ (.trivially _) (.trivially _) fun _ _ _ _ => trivial
  case trait => exact .map₂ (.trivially _) (.trivially _) fun _ _ _ _ => trivial
  case impl =>
    exact .map₃ (.trivially _) (.trivially _) (.seq_left (.many hmethod) (.mark .braceClose))
      fun _ _ _ _ _ hmethods => hmethods
  case fn => exact .map₃ (.trivially _) (.trivially _) (.trivially _) fun _ _ _ _ _ _ => trivial

theorem complete_of_read {text : List Char} {items : List (Spanned ItemTree)}
    (h : readText text = .ok items) : ∀ item ∈ items, item.value.Complete := by
  obtain ⟨hending, hprogram⟩ := read_text_eq_ok.mp h
  exact Ensures.derives (fun _ => .trivially _) (.many .complete_item) (is_name_of_lexed hending)
    (Reference.derives_program_iff.mp hprogram)

/-! ## Functions with and without bodies -/

section Declared

variable {l : Loader} {item : Spanned ItemTree} {src : FnSource}

/-- Where impls are complete, a function without body is extern or belongs to a trait. -/
theorem Declares.stands (h : Declares l item src) (hitem : item.value.Complete) :
    src.body.isSome = true ∨ src.isExtern = true ∨ src.traitDef.isSome = true := by
  cases h with
  | ofCrate | foreign => exact Or.inr (Or.inl rfl)
  | ofTrait => exact Or.inr (Or.inr rfl)
  | ofImpl _ _ hmethod => exact Or.inl (hitem _ hmethod)
  | free => exact Or.inl rfl

theorem FnSource.is_extern_of_lower {fn : FnDecl} (h : src.lower = .ok fn) :
    fn.isExtern = src.isExtern := by
  obtain ⟨_, _, _, -, -, rfl⟩ := FnSource.lower_eq_ok.mp h
  rfl

end Declared

namespace Loaded

variable {l : Loader} {items : List (Spanned ItemTree)} {p : Program} {id : DefId} {fn : FnDecl}

/-- A function that stands alone has a body, unless it is extern. -/
theorem body_iff (hp : Loaded l items p) (hitems : ∀ item ∈ items, item.value.Complete)
    (hfn : p.fnDecl id = some fn) (hstands : fn.traitDef = none ∨ fn.body.isSome = true) :
    fn.body = none ↔ fn.isExtern = true := by
  constructor
  · intro hbody
    obtain ⟨item, hitem, src, hdeclares, hlower⟩ := hp.found hfn
    have hfits := FnSource.lower_fits hlower
    rw [hbody, Option.isSome_none, Bool.false_eq_true, or_false] at hstands
    rcases hdeclares.stands (hitems item hitem) with hsome | hextern | htrait
    · rw [← hfits.hasBody, hbody] at hsome
      cases hsome
    · rw [FnSource.is_extern_of_lower hlower, hextern]
    · rw [← hfits.traitDef, hstands] at htrait
      cases htrait
  · exact hp.registered.extern_body hfn

/-- What was resolved before does not show in a program that was read from a text. -/
theorem resolves_alike (hp : Loaded l items p) : p.ResolvesAlike :=
  (Program.resolves_alike_iff_of_empty hp.interned).mpr hp.coherent.idempotent

/-- Resolution changes nothing but what is interned. -/
theorem resolve_keeps (hp : Loaded l items p) {q : Program} (hq : p.Resolving q) (id : DefId)
    (args : List Ty) : { (q.resolve id args).2 with interned := {} } = p := by
  have hinterned := Program.InternedFrom.of_resolving hq hp.interned hp.coherent
  obtain ⟨-, hnext⟩ := hinterned.resolve hp.coherent.idempotent id args
  rw [hnext.same]
  exact congrArg (fun table => { p with interned := table }) hp.interned.symm

/-- The body of an instance that stands alone is there exactly if its function is not extern. -/
theorem body_of_stands (hp : Loaded l items p) (hitems : ∀ item ∈ items, item.value.Complete)
    {i : Instance} (hfn : p.fnDecl i.defId = some fn) (harity : i.args.length = fn.generics.length)
    (hstands : fn.traitDef = none ∨ fn.body.isSome = true) :
    fn.isExtern = true ∧ p.bodyOf i = .ok none ∨
      fn.isExtern = false ∧ ∃ body, p.bodyOf i = .ok (some body) := by
  have hiff := hp.body_iff hitems hfn hstands
  rw [Program.body_of_eq hfn harity]
  cases hbody : fn.body with
  | none =>
      have hforeign := hiff.mp hbody
      exact Or.inl ⟨hforeign, by rw [hforeign]; rfl⟩
  | some generic =>
      have hlocal : fn.isExtern = false := by
        rw [← Bool.not_eq_true, ← hiff, hbody]
        exact Option.some_ne_none generic
      exact Or.inr ⟨hlocal, _, by rw [hlocal]; rfl⟩

end Loaded

/-- Whatever was resolved before in a program that was read from a text, resolution fails with a
finding about resolution, or gives an instance of a known function. A fresh resolver gives the
instance for itself, and its body is there exactly if the function is not extern; so a method of a
trait that is handed out has a body. -/
theorem resolve_of_text {file : Option String} {text : List Char} {p : Program}
    (h : loadText file text = .ok p) :
    ∀ q, p.Resolving q → ∀ id args,
      (∃ message r, q.resolve id args = (.error (.check { kind := .resolution, message }), r)) ∨
      ∃ i r fn, q.resolve id args = (.ok i, r) ∧
        ({ r with interned := {} }.resolve i.defId i.args).1 = .ok i ∧
        r.fnDecl i.defId = some fn ∧
        (fn.isExtern = true ∧ r.bodyOf i = .ok none ∨
          fn.isExtern = false ∧ ∃ body, r.bodyOf i = .ok (some body)) ∧
        (fn.traitDef.isSome = true → fn.body.isSome = true) := by
  obtain ⟨items, l, hread, -, hp⟩ := loaded_of_text h
  intro q hq id args
  have hanswer := hp.resolves_alike q hq id args
  have hkeeps := hp.resolve_keeps hq id args
  generalize q.resolve id args = asked at hanswer hkeeps ⊢
  obtain ⟨outcome, r⟩ := asked
  cases outcome with
  | error fault =>
      have horacle := ((Program.InternedFrom.start hp.interned).resolve hp.coherent.idempotent id
        args).1
      rw [← hanswer] at horacle
      obtain ⟨cause, hcause, rfl⟩ := Program.oracle_resolve_eq_error.mp horacle.symm
      exact Or.inl ⟨cause.message, r, by rw [hp.resolution_fault hcause]⟩
  | ok i =>
      refine Or.inr ?_
      have hresolve := (Program.resolve_empty_eq_ok hp.interned).mp hanswer.symm
      obtain ⟨fn, hfn, harity, hstands⟩ := Environment.resolve_stands hp.coherent hresolve
      have hfresh := (Program.resolve_empty_eq_ok hp.interned).mpr (hp.coherent.idempotent hresolve)
      have hbody := hp.body_of_stands (complete_of_read hread) hfn harity hstands
      -- the program is still the one that was read, apart from what is interned
      subst hkeeps
      refine ⟨i, r, fn, rfl, hfresh, hfn, hbody, fun htrait => hstands.resolve_left fun hnone => ?_⟩
      rw [hnone] at htrait
      cases htrait

/-- A trait with a method that an impl has to give, and the impl for unit. -/
def showText : String :=
  "trait Show \x7b fn show(Self); \x7d
impl Show for () \x7b
    fn show(()) \x7b
        let _0: ();
        let _1: ();
        bb0: \x7b return; \x7d
    \x7d
\x7d
"

set_option maxRecDepth 20000 in
/-- The method of the trait leads to that of the impl, which has a body. -/
theorem resolve_of_text_show :
    ∃ p r fn, loadText none showText.toList = .ok p ∧ p.Resolving p ∧
      p.resolve ⟨"main", "Show::show"⟩ [.unit] = (.ok ⟨⟨"main", "<() as Show>::show"⟩, []⟩, r) ∧
      ({ r with interned := {} }.resolve ⟨"main", "<() as Show>::show"⟩ []).1 =
        .ok ⟨⟨"main", "<() as Show>::show"⟩, []⟩ ∧
      r.fnDecl ⟨"main", "<() as Show>::show"⟩ = some fn ∧ fn.isExtern = false ∧
      ∃ body, r.bodyOf ⟨⟨"main", "<() as Show>::show"⟩, []⟩ = .ok (some body) := by
  obtain ⟨p, hload, htest⟩ : ∃ p, loadText none showText.toList = .ok p ∧
      (decide ((p.resolve ⟨"main", "Show::show"⟩ [.unit]).1 =
          .ok ⟨⟨"main", "<() as Show>::show"⟩, []⟩) &&
        ((p.resolve ⟨"main", "Show::show"⟩ [.unit]).2.bodyOf
          ⟨⟨"main", "<() as Show>::show"⟩, []⟩).toOption.any Option.isSome) = true :=
    exists_of_load_chars (by decide +kernel)
  rw [Bool.and_eq_true, decide_eq_true_eq] at htest
  obtain ⟨hanswer, hsome⟩ := htest
  rcases resolve_of_text hload p .refl ⟨"main", "Show::show"⟩ [.unit] with
    ⟨message, r, herror⟩ | ⟨i, r, fn, hok, hfresh, hfn, hbody, -⟩
  · rw [herror] at hanswer
    cases hanswer
  · rw [hok] at hanswer hsome
    obtain rfl := Except.ok.inj hanswer
    rcases hbody with ⟨-, hnone⟩ | ⟨hlocal, hbody⟩
    · rw [hnone] at hsome
      cases hsome
    · exact ⟨p, r, fn, hload, .refl, hok, hfresh, hfn, hlocal, hbody⟩

end Source

end MirAudit
