import MirAudit.Body.Subst
import MirAudit.Proofs.Ty.Parts

/-!
# Composition of substitutions

One substitution after another is again a substitution: the bindings of the first one, with what
they bind substituted by the second, in front of those of the second. Since the first binding of a
name counts, a name that both bind is bound as the first one binds it, and what is put in for it
is not substituted a third time. `Subst.composes` says this of all types and bodies, and says when
no parameter is left.
-/

namespace MirAudit

namespace Subst

/-- The names that are bound, in order and with repetitions. -/
def params (s : Subst) : List String :=
  s.bindings.map Prod.fst

/-- The types that the names are bound to, in order. -/
def args (s : Subst) : List Ty :=
  s.bindings.map Prod.snd

/-- Every substitution binds its parameters to its arguments, one to one. -/
theorem of_params_args (s : Subst) : Subst.of s.params s.args = .ok s := by
  rw [Subst.of, if_pos (by simp [params, args])]
  rw [params, args, List.zip_map', List.map_id']

/-- The substitution that acts as `s` and then `t`. -/
def andThen (s t : Subst) : Subst :=
  ⟨s.bindings.map (fun binding => (binding.1, binding.2.subst t)) ++ t.bindings⟩

/-- Two substitutions one after another bind the parameters of both. -/
theorem of_and_then (s t : Subst) :
    Subst.of (s.params ++ t.params) (s.args.map (Ty.subst t) ++ t.args) = .ok (s.andThen t) := by
  have hparams : s.params ++ t.params = (s.andThen t).params := by
    simp [params, andThen]
  have hargs : s.args.map (Ty.subst t) ++ t.args = (s.andThen t).args := by
    simp [args, andThen]
  rw [hparams, hargs, of_params_args]

/-- Looking up a name among substituted types is substituting in the type it is bound to. -/
theorem lookup_map_snd (f : Ty → Ty) (bindings : List (String × Ty)) (name : String) :
    (bindings.map fun binding => (binding.1, f binding.2)).lookup name
      = (bindings.lookup name).map f := by
  induction bindings with
  | nil => rfl
  | cons binding bindings ih =>
      rw [List.map_cons, List.lookup_cons, List.lookup_cons, ih]
      cases name == binding.1 <;> rfl

/-- A name is bound as `s` binds it, up to `t`, or else as `t` binds it. -/
theorem lookup_and_then (s t : Subst) (name : String) :
    (s.andThen t).lookup name = ((s.lookup name).map (Ty.subst t)).or (t.lookup name) := by
  rw [lookup, andThen, List.lookup_append, lookup_map_snd]
  rfl

end Subst

/-! ## Types -/

namespace Ty

/-- What a parameter becomes by one substitution after the other. -/
theorem subst_subst_param (s t : Subst) (name : String) :
    ((Ty.param name).subst s).subst t = (Ty.param name).subst (s.andThen t) := by
  rw [subst, subst, Subst.lookup_and_then]
  cases s.lookup name with
  | none => rfl
  | some ty => rfl

mutual
/-- One substitution after the other is their composition. -/
theorem subst_subst (s t : Subst) : ∀ ty : Ty, (ty.subst s).subst t = ty.subst (s.andThen t)
  | .scalar _ => rfl
  | .adt name args => congrArg (Ty.adt name) (subst_all_subst s t args)
  | .ref pointee mutable => congrArg (fun ty => Ty.ref ty mutable) (subst_subst s t pointee)
  | .tuple elems => congrArg Ty.tuple (subst_all_subst s t elems)
  | .param name => subst_subst_param s t name
  | .fnDef callee args => congrArg (Ty.fnDef callee) (subst_all_subst s t args)
  | .fnPtr inputs output => congrArg₂ Ty.fnPtr (subst_all_subst s t inputs) (subst_subst s t output)

theorem subst_all_subst (s t : Subst) : ∀ tys : List Ty,
    substAll t (substAll s tys) = substAll (s.andThen t) tys
  | [] => rfl
  | ty :: tys => congrArg₂ List.cons (subst_subst s t ty) (subst_all_subst s t tys)
end

mutual
/-- A substitution that binds nothing changes nothing. -/
theorem subst_nil : ∀ ty : Ty, ty.subst ⟨[]⟩ = ty
  | .scalar _ | .param _ => rfl
  | .adt name args => congrArg (Ty.adt name) (subst_all_nil args)
  | .ref pointee mutable => congrArg (fun ty => Ty.ref ty mutable) (subst_nil pointee)
  | .tuple elems => congrArg Ty.tuple (subst_all_nil elems)
  | .fnDef callee args => congrArg (Ty.fnDef callee) (subst_all_nil args)
  | .fnPtr inputs output => congrArg₂ Ty.fnPtr (subst_all_nil inputs) (subst_nil output)

theorem subst_all_nil : ∀ tys : List Ty, substAll ⟨[]⟩ tys = tys
  | [] => rfl
  | ty :: tys => congrArg₂ List.cons (subst_nil ty) (subst_all_nil tys)
end

/-- The parameters in a type are itself, if it is one, and those in its parts. -/
theorem mentions_iff {ty : Ty} {name : String} :
    ty.Mentions name ↔ ty = .param name ∨ ∃ part ∈ ty.parts, part.Mentions name := by
  constructor
  · intro h
    cases h with
    | self => exact Or.inl rfl
    | part hpart hmentions => exact Or.inr ⟨_, hpart, hmentions⟩
  · rintro (rfl | ⟨part, hpart, hmentions⟩)
    · exact .self
    · exact .part hpart hmentions

/-- A type with the head of a parameter is that parameter. -/
theorem eq_param_of_head {ty : Ty} {name : String} (h : ty.head = .param name) :
    ty = .param name := by
  cases ty with
  | param own =>
      obtain rfl := Head.param.inj h
      rfl
  | scalar | adt | ref | tuple | fnDef | fnPtr => cases h

/-- The parameters in a substituted type are those in what its own parameters become. -/
theorem mentions_subst {s : Subst} {ty : Ty} {name : String} :
    (ty.subst s).Mentions name
      ↔ ∃ own, ty.Mentions own ∧ ((Ty.param own).subst s).Mentions name := by
  induction ty using parts_induction with
  | h ty ih =>
      by_cases hparam : ∃ own, ty = .param own
      · -- the only parameter in a parameter is itself
        obtain ⟨own, rfl⟩ := hparam
        constructor
        · exact fun h => ⟨own, .self, h⟩
        · rintro ⟨other, hother, h⟩
          rcases mentions_iff.mp hother with heq | ⟨part, hpart, -⟩
          · rwa [heq]
          · exact absurd hpart List.not_mem_nil
      · obtain ⟨hhead, hparts⟩ := (head_parts_subst s ty).resolve_left hparam
        constructor
        · intro h
          rcases mentions_iff.mp h with heq | ⟨part, hpart, hmentions⟩
          · rw [heq] at hhead
            exact absurd ⟨name, eq_param_of_head hhead.symm⟩ hparam
          · rw [hparts] at hpart
            obtain ⟨inner, hinner, rfl⟩ := List.mem_map.mp hpart
            obtain ⟨own, hown, h⟩ := (ih inner hinner).mp hmentions
            exact ⟨own, .part hinner hown, h⟩
        · rintro ⟨own, hown, h⟩
          rcases mentions_iff.mp hown with heq | ⟨part, hpart, hmentions⟩
          · exact absurd ⟨own, heq⟩ hparam
          · refine .part ?_ ((ih part hpart).mpr ⟨own, hmentions, h⟩)
            rw [hparts]
            exact List.mem_map_of_mem hpart

/-- A parameter becomes a concrete type if it is bound to one. -/
theorem has_param_subst_param {s : Subst} {name : String} :
    ((Ty.param name).subst s).hasParam = false
      ↔ ∃ arg, s.lookup name = some arg ∧ arg.hasParam = false := by
  rw [subst]
  cases s.lookup name with
  | none => simp [hasParam]
  | some arg => simp

/-- A substituted type is concrete exactly if every parameter in the type is bound to a concrete
type. -/
theorem has_param_subst {s : Subst} {ty : Ty} :
    (ty.subst s).hasParam = false ↔ ∀ name, ty.Mentions name →
      ∃ arg, s.lookup name = some arg ∧ arg.hasParam = false := by
  calc (ty.subst s).hasParam = false
      ↔ ∀ name, ¬ (ty.subst s).Mentions name := has_param_eq_false_iff_mentions
    _ ↔ ∀ own, ty.Mentions own → ∀ name, ¬ ((Ty.param own).subst s).Mentions name := by
        constructor
        · exact fun h own hown name hname => h name (mentions_subst.mpr ⟨own, hown, hname⟩)
        · intro h name hmentions
          obtain ⟨own, hown, hname⟩ := mentions_subst.mp hmentions
          exact h own hown name hname
    _ ↔ ∀ own, ty.Mentions own → ((Ty.param own).subst s).hasParam = false := by
        simp only [has_param_eq_false_iff_mentions]
    _ ↔ ∀ own, ty.Mentions own → ∃ arg, s.lookup own = some arg ∧ arg.hasParam = false := by
        simp only [has_param_subst_param]

end Ty

/-! ## Bodies -/

section

variable (s t : Subst)

theorem Operand.subst_subst (operand : Operand) :
    (operand.subst s).subst t = operand.subst (s.andThen t) := by
  cases operand <;> simp [subst, Ty.subst_subst]

theorem Rvalue.subst_subst (rvalue : Rvalue) :
    (rvalue.subst s).subst t = rvalue.subst (s.andThen t) := by
  cases rvalue <;> simp [subst, Ty.subst_subst, Operand.subst_subst]

theorem Statement.subst_subst (statement : Statement) :
    (statement.subst s).subst t = statement.subst (s.andThen t) := by
  cases statement <;> simp [subst, Rvalue.subst_subst]

theorem Terminator.subst_subst (terminator : Terminator) :
    (terminator.subst s).subst t = terminator.subst (s.andThen t) := by
  cases terminator <;> simp [subst, Operand.subst_subst]

/-- A body substituted twice is the body substituted by the composition. -/
theorem Body.subst_subst (b : Body) : (b.subst s).subst t = b.subst (s.andThen t) := by
  simp [subst, Block.subst, LocalDecl.subst, Statement.subst_subst, Terminator.subst_subst,
    Ty.subst_subst]

end

theorem Operand.subst_nil (operand : Operand) : operand.subst ⟨[]⟩ = operand := by
  cases operand <;> simp [subst, Ty.subst_nil]

theorem Rvalue.subst_nil (rvalue : Rvalue) : rvalue.subst ⟨[]⟩ = rvalue := by
  cases rvalue <;>
    simp [subst, Ty.subst_nil, Operand.subst_nil, List.map_id'' Operand.subst_nil]

theorem Statement.subst_nil (statement : Statement) : statement.subst ⟨[]⟩ = statement := by
  cases statement <;> simp [subst, Rvalue.subst_nil]

theorem Terminator.subst_nil (terminator : Terminator) : terminator.subst ⟨[]⟩ = terminator := by
  cases terminator <;> simp [subst, Operand.subst_nil, List.map_id'' Operand.subst_nil]

theorem Block.subst_nil (block : Block) : block.subst ⟨[]⟩ = block := by
  simp [subst, Terminator.subst_nil, List.map_id'' Statement.subst_nil]

theorem LocalDecl.subst_nil (decl : LocalDecl) : decl.subst ⟨[]⟩ = decl := by
  simp [subst, Ty.subst_nil]

/-- Substitution changes no body when nothing is bound, so it need not be tested whether anything
is. -/
theorem Body.subst_of_identity {s : Subst} (h : s.isIdentity) (b : Body) : b.subst s = b := by
  obtain ⟨bindings⟩ := s
  obtain rfl : bindings = [] := List.isEmpty_iff.mp h
  simp [subst, List.map_id'' Block.subst_nil, List.map_id'' LocalDecl.subst_nil]

/-- Substitutions compose. One after the other acts on every type and on every body as the
substitution that binds the parameters of the first one, to its arguments put through the second
one, and behind them the parameters of the second one. No parameter is left in a type exactly if
each that occurs in it is bound to a type without parameters. -/
theorem Subst.composes (s t : Subst) :
    ∃ both, Subst.of (s.params ++ t.params) (s.args.map (Ty.subst t) ++ t.args) = .ok both
      ∧ (∀ ty : Ty, (ty.subst s).subst t = ty.subst both)
      ∧ (∀ b : Body, (b.subst s).subst t = b.subst both)
      ∧ ∀ ty : Ty, (ty.subst s).hasParam = false ↔ ∀ name, ty.Mentions name →
          ∃ arg, s.lookup name = some arg ∧ arg.hasParam = false :=
  ⟨s.andThen t, of_and_then s t, Ty.subst_subst s t, Body.subst_subst s t,
    fun _ => Ty.has_param_subst⟩

example :
    let s : Subst := ⟨[("T", .ref (.param "U") false), ("T", .scalar "i32")]⟩
    let t : Subst := ⟨[("U", .scalar "bool"), ("T", .unit)]⟩
    ((Ty.tuple [.param "T", .param "U"]).subst s).subst t
      = .tuple [.ref (.scalar "bool") false, .scalar "bool"] := by
  decide

end MirAudit
