import MirAudit.Program.Basic
import MirAudit.Source.Token
import MirAudit.Text.Digits

/-!
# Load faults

A source text is rejected where its syntax breaks off, or where what it says cannot be a program:
wrong numbers of slots or blocks, jumps to blocks that do not exist, signatures that disagree with
the body, duplicate definitions. Every load fault has a region of the text. A numeral that is too long
to be read is no such fault: it ends the loading without a place.
-/

namespace MirAudit.Source

/-- Why a source text is rejected. -/
inductive LoadFault where
  | unexpectedToken (token : Token)
  | unexpectedChar (c : Char)
  | unexpectedEnd
  | duplicateCrate
  | shadowedCrate (name : String)
  | duplicateParam (name : String)
  /-- A scalar or a parameter is given type arguments. -/
  | typeArguments (name : String)
  | malformedString (token : Token)
  | slotOrder (expected : Nat) (found : Token)
  | blockOrder (expected : Nat) (found : Token)
  | undeclaredSlot (slot : Token) (declared : Nat)
  | tooFewSlots (fn : String) (declared needed : Nat)
  | slotType (slot : Nat) (fn : String) (declared expected : Ty)
  | noBlocks (fn : String)
  | undefinedBlock (block : Nat) (fn : String) (target : BlockNumber)
  | registration (fault : RegistrationFault)

/-- The wording of a load fault. -/
def LoadFault.message : LoadFault → String
  | .unexpectedToken token => "unexpected token `" ++ token.string ++ "`"
  | .unexpectedChar c => "unexpected character `" ++ c.toString ++ "`"
  | .unexpectedEnd => "unexpected end of input"
  | .duplicateCrate => "duplicate `crate ...` declaration"
  | .shadowedCrate name => "extern crate `" ++ name ++ "` shadows the local crate"
  | .duplicateParam name => "duplicate generic parameter `" ++ name ++ "`"
  | .typeArguments name => "type `" ++ name ++ "` does not take type arguments"
  | .malformedString token => "invalid string literal " ++ token.string
  | .slotOrder expected found =>
    "expected local " ++ renderSlot expected ++ ", found " ++ found.string
  | .blockOrder expected found =>
    "expected block " ++ renderBlockRef expected ++ ", found " ++ found.string
  | .undeclaredSlot slot declared =>
    "use of undeclared local " ++ slot.string ++ " (body declares " ++ toString declared ++ ")"
  | .tooFewSlots fn declared needed =>
    "function `" ++ fn ++ "` declares " ++ toString declared ++ " local(s), needs at least "
      ++ toString needed ++ " for its return value and arguments"
  | .slotType slot fn declared expected =>
    "local " ++ renderSlot slot ++ " of `" ++ fn ++ "` has type `" ++ declared.render
      ++ "`, signature says `" ++ expected.render ++ "`"
  | .noBlocks fn => "function `" ++ fn ++ "` has no basic blocks"
  | .undefinedBlock block fn target =>
    renderBlockRef block ++ " of `" ++ fn ++ "` jumps to undefined block "
      ++ renderBlockRef target
  | .registration fault => fault.message

/-- A load fault with the part of the text it concerns. The end is unknown for a syntax fault. -/
structure Located where
  fault : LoadFault
  start : Position
  stop : Option Position

/-- A syntax fault at a place. -/
def LoadFault.startingAt (fault : LoadFault) (start : Position) : Located :=
  ⟨fault, start, none⟩

/-- The span of a located fault in a file. -/
def Located.span (file : Option String) (l : Located) : Span :=
  { file, line := some l.start.line, column := some l.start.column,
    endLine := l.stop.map fun p => p.line, endColumn := l.stop.map fun p => p.column }

/-- The span of a region in a file. -/
def Region.span (file : Option String) (r : Region) : Span :=
  { file, line := some r.start.line, column := some r.start.column,
    endLine := some r.stop.line, endColumn := some r.stop.column }

/-- What ends the loading of a text: a fault with its place, or a numeral that cannot be read. No
part of loading gives the latter a place. -/
inductive LoadError where
  | located (fault : Located)
  | overlong (numeral : Digits.Overlong)

/-- A fault about a region, as the end of loading. -/
def LoadFault.within (fault : LoadFault) (region : Region) : LoadError :=
  .located ⟨fault, region.start, some region.stop⟩

/-- The crash that a numeral ends in that cannot be read. -/
def numeralCrash (numeral : Digits.Overlong) : Crash :=
  .other "ValueError" numeral.message

/-- The outcome of building a part of a program from its tree. -/
abbrev Load (α : Type) := Except LoadError α

end MirAudit.Source
