/-!
# Line ends

A text file may end its lines with a newline, a carriage return, or both. Reading turns each of them
into a newline.
-/

namespace MirAudit.Newline

/-- The text with every line end written as a newline. -/
def normalize : List Char → List Char
  | '\r' :: '\n' :: rest => '\n' :: normalize rest
  | '\r' :: rest => '\n' :: normalize rest
  | c :: rest => c :: normalize rest
  | [] => []

end MirAudit.Newline
