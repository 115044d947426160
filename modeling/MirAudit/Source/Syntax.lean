import MirAudit.Source.Grammar
import MirAudit.Source.Tree

/-!
# The source syntax

The grammar of source texts. Types and paths refer to each other; every other part is built from
these two and from the parts before it. One token of lookahead decides every choice.
-/

namespace MirAudit.Source.Syntax

/-- The named rules: types, and paths. -/
inductive Rule where
  | ty
  | path
deriving DecidableEq

/-- What the named rules yield. -/
abbrev Rule.Tree : Rule → Type
  | .ty => TypeTree
  | .path => PathTree

/-- A part of the source syntax. -/
abbrev Part := Gram Rule.Tree

/-! ## Words and lists -/

/-- A reserved word. -/
def kw (keyword : Keyword) : Part Token :=
  .token (.keyword keyword)

/-- A punctuation mark. -/
def mark (m : Mark) : Part Token :=
  .token (.mark m)

/-- A part that may be missing. -/
def optional {α : Type} (p : Part α) : Part (Option α) :=
  some <$> p <|> pure none

/-- Whether a part is there. -/
def present {α : Type} (p : Part α) : Part Bool :=
  (fun _ => true) <$> p <|> pure false

/-- A part that gives nothing if it is missing. -/
def orNothing {α : Type} (p : Part (List α)) : Part (List α) :=
  p <|> pure []

/-- One or more parts with marks between them. -/
def separated {α : Type} (m : Mark) (p : Part α) : Part (List α) :=
  (fun a as => a :: as) <$> p <*> .many (mark m *> p)

/-- A list with commas in parentheses, maybe empty. -/
def parenthesised {α : Type} (p : Part α) : Part (List α) :=
  mark .parenOpen *> orNothing (separated .comma p) <* mark .parenClose

/-- A list with commas in angle brackets. -/
def angled {α : Type} (p : Part α) : Part (List α) :=
  mark .angleOpen *> separated .comma p <* mark .angleClose

/-! ## Types and paths -/

/-- A type. -/
def ty : Part TypeTree :=
  .rule Rule.ty

/-- A path. -/
def path : Part PathTree :=
  .rule Rule.path

/-- Type arguments, if any. -/
def typeArgs : Part (List TypeTree) :=
  orNothing (angled ty)

/-- What follows the first element of a tuple: a comma, and then the end or more elements. -/
def tupleRest : Part (List TypeTree) :=
  mark .comma *> ((mark .parenClose).giving []
    <|> separated .comma ty <* mark .parenClose)

/-- What follows an opening parenthesis: the end of the unit type, or the elements of a tuple. -/
def parenRest : Part TypeTree :=
  (mark .parenClose).giving .unit
    <|> (fun elem elems => .tuple (elem :: elems)) <$> ty <*> tupleRest

/-- A type that a path names, with its region. -/
def namedTy : Part TypeTree :=
  (fun tree => .named tree.region tree.value.1 tree.value.2)
    <$> .spanned (Prod.mk <$> path <*> typeArgs)

/-- A segment of a path. -/
def segment : Part SegmentTree :=
  (fun tok => .name tok.string) <$> .token .name
    <|> .qualified <$> (mark .angleOpen *> ty) <*> (kw .asKw *> path <* mark .angleClose)

/-- The definitions of the named rules. -/
def definition : (n : Rule) → Part n.Tree
  | .ty =>
    mark .parenOpen *> parenRest
      <|> .ref <$> (mark .ampersand *> present (kw .mutKw)) <*> ty
      <|> .fnPtr <$> (kw .fnKw *> parenthesised ty) <*> (mark .arrow *> ty)
      <|> .fnDef <$> (kw .fndefKw *> path) <*> typeArgs
      <|> (mark .bang).giving .never
      <|> namedTy
  | .path => separated .pathSep segment

/-- The terminals that the named rules can start with. -/
def firstOf : Rule → List Terminal
  | .ty =>
    [.mark .parenOpen, .mark .ampersand, .keyword .fnKw, .keyword .fndefKw, .mark .bang, .name,
      .mark .angleOpen]
  | .path => [.name, .mark .angleOpen]

/-! ## Bodies -/

/-- A truth value. -/
def bool : Part Bool :=
  (kw .trueKw).giving true <|> (kw .falseKw).giving false

/-- A literal. -/
def literal : Part LiteralTree :=
  .int <$> .token .integer
    <|> .bool <$> bool
    <|> .str <$> .token .string
    <|> (mark .parenOpen *> mark .parenClose).giving .unit

/-- An operand. -/
def operand : Part OperandTree :=
  .copy <$> (kw .copyKw *> .token .slot)
    <|> .move <$> (kw .moveKw *> .token .slot)
    <|> .const <$> (kw .constKw *> literal) <*> (mark .colon *> ty)
    <|> .fnItem <$> (kw .fndefKw *> path) <*> typeArgs

/-- The right-hand side of an assignment. -/
def rvalue : Part RvalueTree :=
  .binary <$> .token .name <*> (mark .parenOpen *> operand)
      <*> (mark .comma *> operand <* mark .parenClose)
    <|> .ref <$> (mark .ampersand *> present (kw .mutKw)) <*> .token .slot
    <|> .cast <$> (kw .castKw *> mark .parenOpen *> operand)
      <*> (kw .asKw *> ty <* mark .parenClose)
    <|> .aggregate <$> (kw .aggregateKw *> ty) <*> parenthesised operand
    <|> .use <$> operand

/-- A statement. -/
def statement : Part StatementTree :=
  .assign <$> .token .slot <*> (mark .assign *> rvalue <* mark .semicolon)
    <|> .storageLive <$> (kw .storageLiveKw *> mark .parenOpen *> .token .slot
      <* mark .parenClose <* mark .semicolon)
    <|> .storageDead <$> (kw .storageDeadKw *> mark .parenOpen *> .token .slot
      <* mark .parenClose <* mark .semicolon)
    <|> (kw .nopKw *> mark .semicolon).giving .nop

/-- An arm of a switch. -/
def arm : Part (Token × Token) :=
  Prod.mk <$> .token .integer <*> (mark .colon *> .token .blockRef <* mark .comma)

/-- The arrow and the block behind it. -/
def target : Part Token :=
  mark .arrow *> .token .blockRef <* mark .semicolon

/-- The arrow and the block that a call returns to, if it returns. -/
def callTarget : Part (Option Token) :=
  mark .arrow *> (some <$> .token .blockRef <|> (mark .bang).giving none) <* mark .semicolon

/-- A terminator. -/
def terminator : Part TerminatorTree :=
  .goto <$> (kw .gotoKw *> target)
    <|> (kw .returnKw *> mark .semicolon).giving .return
    <|> (kw .unreachableKw *> mark .semicolon).giving .unreachable
    <|> .switch <$> (kw .switchIntKw *> mark .parenOpen *> operand <* mark .parenClose)
      <*> (mark .arrow *> mark .bracketOpen *> .many arm)
      <*> (kw .otherwiseKw *> mark .colon *> .token .blockRef
        <* mark .bracketClose <* mark .semicolon)
    <|> .call <$> (kw .callKw *> .token .slot) <*> (mark .assign *> operand)
      <*> parenthesised operand <*> callTarget
    <|> .drop <$> (kw .dropKw *> mark .parenOpen *> .token .slot <* mark .parenClose) <*> target
    <|> .assert <$> (kw .assertKw *> mark .parenOpen *> operand)
      <*> (mark .comma *> bool <* mark .parenClose) <*> target

/-- The declaration of a slot. -/
def localDecl : Part LocalTree :=
  .mk <$> (kw .letKw *> present (kw .mutKw)) <*> .token .slot
    <*> (mark .colon *> ty <* mark .semicolon)

/-- A block. -/
def block : Part BlockTree :=
  .mk <$> (.token .blockRef <* mark .colon <* mark .braceOpen) <*> .many statement
    <*> (terminator <* mark .braceClose)

/-- A body. -/
def body : Part (Spanned BodyTree) :=
  .spanned (.mk <$> (mark .braceOpen *> .many localDecl) <*> (.many block <* mark .braceClose))

/-! ## Items -/

/-- A type parameter. -/
def genericParam : Part (Spanned ParamTree) :=
  .spanned (.mk <$> .token .name <*> orNothing (mark .colon *> separated .plus path))

/-- A signature. -/
def signature : Part SignatureTree :=
  .mk <$> .token .name <*> orNothing (angled genericParam) <*> parenthesised ty
    <*> optional (mark .arrow *> ty)

/-- A function of another crate. -/
def externSignature : Part (Spanned SignatureTree) :=
  .spanned (kw .fnKw *> signature <* mark .semicolon)

/-- A method of a trait, with or without body. -/
def traitMethod : Part (Spanned MethodTree) :=
  .spanned (.mk <$> (kw .fnKw *> signature) <*> ((mark .semicolon).giving none <|> some <$> body))

/-- A method of an impl. -/
def implMethod : Part (Spanned MethodTree) :=
  .spanned (.mk <$> (kw .fnKw *> signature) <*> (some <$> body))

/-- An external crate with its functions, behind the word that opens it. -/
def externCrate : Part ItemTree :=
  .externCrate <$> (kw .crateKw *> .token .name <* mark .braceOpen)
    <*> (.many externSignature <* mark .braceClose)

/-- A foreign function, behind the word that opens it. -/
def externFn : Part ItemTree :=
  .externFn <$> (kw .fnKw *> signature <* mark .semicolon)

/-- An item. -/
def item : Part (Spanned ItemTree) :=
  .spanned <|
    .crate <$> (kw .crateKw *> .token .name <* mark .semicolon)
      <|> kw .externKw *> (externCrate <|> externFn)
      <|> .struct <$> (kw .structKw *> .token .name)
        <*> (orNothing (angled (.token .name)) <* mark .semicolon)
      <|> .trait <$> (kw .traitKw *> .token .name <* mark .braceOpen)
        <*> (.many traitMethod <* mark .braceClose)
      <|> .impl <$> (kw .implKw *> path) <*> (kw .forKw *> ty <* mark .braceOpen)
        <*> (.many implMethod <* mark .braceClose)
      <|> .fn <$> present (kw .entryKw) <*> (kw .fnKw *> signature) <*> body

/-- A source text. -/
def program : Part (List (Spanned ItemTree)) :=
  .many item

/-- Reads tokens as a source text, or gives the tokens from where it cannot go on. -/
def readItems (ts : List Token) : Except (List Token) (List (Spanned ItemTree)) :=
  Gram.parse firstOf definition program ts

end MirAudit.Source.Syntax
