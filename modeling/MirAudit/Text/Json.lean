import MirAudit.Text.Literal

/-!
# JSON documents

A document is written on one line in ASCII, with a blank behind every comma and colon and with
members in the order in which they are given.
-/

namespace MirAudit

/-- A JSON document. -/
inductive Json where
  | null
  | bool (value : Bool)
  | int (value : Int)
  | string (value : String)
  | array (items : List Json)
  | object (members : List (String × Json))

namespace Json

/-- A number of things. -/
def nat (n : Nat) : Json :=
  .int n

/-- A value, or null without one. -/
def option {α : Type} (encode : α → Json) : Option α → Json
  | none => .null
  | some a => encode a

/-- The written form of a string. -/
def renderString (s : String) : String :=
  String.ofList (Literal.encode (Text.ofString s))

mutual
/-- The written form of a document. -/
def render : Json → String
  | .null => "null"
  | .bool value => if value then "true" else "false"
  | .int value => toString value
  | .string value => renderString value
  | .array items => "[" ++ String.intercalate ", " (renderItems items) ++ "]"
  | .object members => "\x7b" ++ String.intercalate ", " (renderMembers members) ++ "\x7d"

/-- The written forms of the items of an array. -/
def renderItems : List Json → List String
  | [] => []
  | item :: items => item.render :: renderItems items

/-- The written forms of the members of an object. -/
def renderMembers : List (String × Json) → List String
  | [] => []
  | member :: members => renderMember member :: renderMembers members

/-- The written form of one member. -/
def renderMember : String × Json → String
  | (name, value) => renderString name ++ ": " ++ value.render
end

end Json

end MirAudit
