import MirAudit.Text.Describe

/-!
# Spans

A span is a best-effort location in a source file: the file, and the lines and columns where a
piece of text starts and ends. Programs built in memory carry the empty span.
-/

namespace MirAudit

/-- A range of a source file; every part may be unknown. -/
structure Span where
  file : Option String := none
  line : Option Int := none
  column : Option Int := none
  endLine : Option Int := none
  endColumn : Option Int := none
deriving DecidableEq

namespace Span

/-- Positions that a syntax node reports, unless it matched no text at all. -/
structure Extent where
  isEmpty : Bool := false
  line : Option Int := none
  column : Option Int := none
  endLine : Option Int := none
  endColumn : Option Int := none

/-- The span of a syntax node: only the file is known of a node without text. -/
def ofExtent (file : Option String) : Option Extent → Span
  | none => { file }
  | some extent =>
    if extent.isEmpty then { file }
    else
      { file, line := extent.line, column := extent.column,
        endLine := extent.endLine, endColumn := extent.endColumn }

/-- Whether the span names no line. -/
def isUnknown (s : Span) : Bool :=
  s.line.isNone

/-- The file name shown to a user; a missing or empty name is shown as unknown. -/
def fileText (s : Span) : String :=
  match s.file with
  | none | some "" => "<unknown>"
  | some file => file

/-- `file:line:column`, with `?` for what is not known. -/
def render (s : Span) : String :=
  s.fileText ++ ":" ++
    match s.line, s.column with
    | none, _ => "?:?"
    | some line, none => toString line ++ ":?"
    | some line, some column => toString line ++ ":" ++ toString column

/-- The structural description. -/
def describe (s : Span) : String :=
  Describe.record "Span"
    [("file", Describe.option Describe.string s.file),
     ("line", Describe.option Describe.int s.line),
     ("column", Describe.option Describe.int s.column),
     ("end_line", Describe.option Describe.int s.endLine),
     ("end_column", Describe.option Describe.int s.endColumn)]

end Span

end MirAudit
