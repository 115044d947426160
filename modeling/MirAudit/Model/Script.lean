import MirAudit.Model.Basic

/-!
# Scripted models

A script changes some answers of a model: it makes a query fail, hides members of a list, or
answers something else. The first rule of a query that applies to its argument takes effect. Rules
refer to arguments by key, which is the name a user reads.
-/

namespace MirAudit

/-- What a rule does to a query. -/
inductive Effect (α : Type) where
  | fail (fault : Fault)
  | revise (change : α → α)
  | answer (value : α)

/-- An effect, on every argument or on the argument of one key. -/
structure ScriptRule (α : Type) where
  condition : Option String := none
  effect : Effect α

/-- A type whose values have a key. -/
class Keyed (α : Type) where
  key : α → String

instance : Keyed Item := ⟨Item.name⟩
instance : Keyed Crate := ⟨Crate.name⟩
instance : Keyed Instance := ⟨Instance.name⟩
instance : Keyed DefId := ⟨DefId.symbol⟩
instance : Keyed TraitDecl := ⟨fun d => d.defId.symbol⟩
instance : Keyed TraitImpl := ⟨fun i => i.defId.symbol⟩

/-- The effect that drops the members with the given keys. -/
def Effect.hide {α : Type} [Keyed α] (keys : List String) : Effect (List α) :=
  .revise fun members => members.filter fun a => !keys.contains (Keyed.key a)

/-- The rules of a script, query by query. -/
structure Script where
  entryFn : List (ScriptRule (Option Item)) := []
  localItems : List (ScriptRule (List Item)) := []
  instanceOf : List (ScriptRule (Option Instance)) := []
  bodyOf : List (ScriptRule (Option Body)) := []
  resolve : List (ScriptRule Instance) := []
  localCrate : List (ScriptRule Crate) := []
  externalCrates : List (ScriptRule (List Crate)) := []
  findCrate : List (ScriptRule (Option Crate)) := []
  traitDecls : List (ScriptRule (List TraitDecl)) := []
  traitDecl : List (ScriptRule TraitDecl) := []
  traitImpls : List (ScriptRule (List TraitImpl)) := []
  traitImpl : List (ScriptRule TraitImpl) := []

variable {σ α : Type}

/-- Whether a rule applies to an argument of the given key, or to a query without argument. -/
def ScriptRule.applies (key : Option String) (rule : ScriptRule α) : Bool :=
  match rule.condition with
  | none => true
  | some wanted => key = some wanted

/-- The query under the first rule that applies. -/
def scripted (rules : List (ScriptRule α)) (key : Option String) (q : Query σ α) : Query σ α :=
  match rules.find? (ScriptRule.applies key) with
  | none => q
  | some rule =>
    match rule.effect with
    | .fail fault => throw fault
    | .revise change => change <$> q
    | .answer value => pure value

/-- The model under a script. -/
def Model.scripted (m : Model σ) (script : Script) : Model σ where
  entryFn := MirAudit.scripted script.entryFn none m.entryFn
  localItems := MirAudit.scripted script.localItems none m.localItems
  instanceOf item := MirAudit.scripted script.instanceOf (Keyed.key item) (m.instanceOf item)
  bodyOfItem item := MirAudit.scripted script.bodyOf (Keyed.key item) (m.bodyOfItem item)
  bodyOf i := MirAudit.scripted script.bodyOf (Keyed.key i) (m.bodyOf i)
  resolve fn args := MirAudit.scripted script.resolve (Keyed.key fn) (m.resolve fn args)
  localCrate := MirAudit.scripted script.localCrate none m.localCrate
  externalCrates := MirAudit.scripted script.externalCrates none m.externalCrates
  findCrate name := MirAudit.scripted script.findCrate (some name) (m.findCrate name)
  traitDecls := MirAudit.scripted script.traitDecls none m.traitDecls
  traitDecl decl := MirAudit.scripted script.traitDecl (Keyed.key decl) (m.traitDecl decl)
  traitImpls := MirAudit.scripted script.traitImpls none m.traitImpls
  traitImpl decl := MirAudit.scripted script.traitImpl (Keyed.key decl) (m.traitImpl decl)

end MirAudit
