import MirAudit.Source.Token

/-!
# Syntax trees

The trees of the source syntax, before names are resolved and numbers are checked. Numbered slots
and blocks and string literals stay tokens, so that a fault can point at them; nodes that a fault
can point at carry their region.
-/

namespace MirAudit.Source

mutual
/-- A type as written. -/
inductive TypeTree where
  | unit
  | tuple (elems : List TypeTree)
  | ref (mutable : Bool) (pointee : TypeTree)
  | fnPtr (inputs : List TypeTree) (output : TypeTree)
  | fnDef (path : List SegmentTree) (args : List TypeTree)
  | never
  | named (region : Region) (path : List SegmentTree) (args : List TypeTree)

/-- A segment of a path: a name, or `<Type as Trait>`. -/
inductive SegmentTree where
  | name (name : String)
  | qualified (ty : TypeTree) (traitPath : List SegmentTree)
end

/-- A path as written. -/
abbrev PathTree := List SegmentTree

/-- A literal as written. -/
inductive LiteralTree where
  | int (token : Token)
  | bool (value : Bool)
  | str (token : Token)
  | unit

/-- An operand as written. -/
inductive OperandTree where
  | copy (slot : Token)
  | move (slot : Token)
  | const (value : LiteralTree) (ty : TypeTree)
  | fnItem (path : PathTree) (args : List TypeTree)

/-- A right-hand side as written. -/
inductive RvalueTree where
  | use (operand : OperandTree)
  | binary (op : Token) (lhs rhs : OperandTree)
  | ref (mutable : Bool) (slot : Token)
  | cast (operand : OperandTree) (ty : TypeTree)
  | aggregate (ty : TypeTree) (operands : List OperandTree)

/-- A statement as written. -/
inductive StatementTree where
  | assign (slot : Token) (rvalue : RvalueTree)
  | storageLive (slot : Token)
  | storageDead (slot : Token)
  | nop

/-- A terminator as written; a call that never returns has no target. -/
inductive TerminatorTree where
  | goto (target : Token)
  | return
  | unreachable
  | switch (discr : OperandTree) (arms : List (Token × Token)) (otherwise : Token)
  | call (dest : Token) (func : OperandTree) (args : List OperandTree) (target : Option Token)
  | drop (slot target : Token)
  | assert (cond : OperandTree) (expected : Bool) (target : Token)

/-- The declaration of a slot as written. -/
structure LocalTree where
  mutable : Bool
  slot : Token
  ty : TypeTree

/-- A block as written. -/
structure BlockTree where
  label : Token
  statements : List StatementTree
  terminator : TerminatorTree

/-- A body as written. -/
structure BodyTree where
  locals : List LocalTree
  blocks : List BlockTree

/-- A type parameter with its bounds as written. -/
structure ParamTree where
  name : Token
  bounds : List PathTree

/-- A signature as written; without output it gives unit. -/
structure SignatureTree where
  name : Token
  generics : List (Spanned ParamTree)
  inputs : List TypeTree
  output : Option TypeTree

/-- A method as written; a required method has no body. -/
structure MethodTree where
  signature : SignatureTree
  body : Option (Spanned BodyTree)

/-- An item as written. -/
inductive ItemTree where
  | crate (name : Token)
  | externCrate (name : Token) (signatures : List (Spanned SignatureTree))
  | externFn (signature : SignatureTree)
  | struct (name : Token) (params : List Token)
  | trait (name : Token) (methods : List (Spanned MethodTree))
  | impl (path : PathTree) (selfTy : TypeTree) (methods : List (Spanned MethodTree))
  | fn (entry : Bool) (signature : SignatureTree) (body : Spanned BodyTree)

end MirAudit.Source
