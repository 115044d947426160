import MirAudit.Check.Expect

/-!
# Nodes

A node is any part of a program: a type, a part of a body, a declaration or an instance. Nodes of
different sorts are never the same.
-/

namespace MirAudit

/-- A part of a program. -/
inductive Node where
  | ty (ty : Ty)
  | operand (operand : Operand)
  | rvalue (rvalue : Rvalue)
  | statement (statement : Statement)
  | terminator (terminator : Terminator)
  | slot (decl : LocalDecl)
  | block (block : Block)
  | body (body : Body)
  | crate (crate : Crate)
  | item (item : Item)
  | generic (param : GenericParam)
  | fn (fn : FnDecl)
  | struct (decl : StructDecl)
  | trait (decl : TraitDecl)
  | impl (decl : TraitImpl)
  | inst (inst : Instance)
deriving DecidableEq

namespace Node

/-- The node with canonical constants and without spans. -/
def canonical : Node → Node
  | .operand o => .operand o.canonical
  | .rvalue r => .rvalue r.canonical
  | .statement s => .statement s.canonical
  | .terminator t => .terminator t.canonical
  | .block b => .block b.canonical
  | .body b => .body b.canonical
  | .item i => .item i.unspanned
  | .fn f => .fn f.unspanned
  | .struct d => .struct d.unspanned
  | .trait d => .trait d.unspanned
  | .impl d => .impl d.unspanned
  | other => other

/-- The structural description. -/
def describe : Node → String
  | .ty t => t.describe
  | .operand o => o.describe
  | .rvalue r => r.describe
  | .statement s => s.describe
  | .terminator t => t.describe
  | .slot d => d.describe
  | .block b => b.describe
  | .body b => b.describe
  | .crate c => c.describe
  | .item i => i.describe
  | .generic p => p.describe
  | .fn f => f.describe
  | .struct d => d.describe
  | .trait d => d.describe
  | .impl d => d.describe
  | .inst i => i.describe

instance : Comparable Node :=
  ⟨fun a b => a.canonical = b.canonical, Node.describe⟩

end Node

end MirAudit
