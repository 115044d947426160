import MirAudit.Digest.Sha256
import MirAudit.Ty.Printer

/-!
# Instances

An instance is a function definition together with its type arguments. Two instances are equal
exactly if their definitions and arguments are.
-/

namespace MirAudit

/-- A function with its type arguments. -/
structure Instance where
  defId : DefId
  args : List Ty := []
deriving DecidableEq

namespace Instance

/-- The name a user reads: `crate::path::<args>`. -/
def name (i : Instance) : String :=
  match i.args with
  | [] => i.defId.symbol
  | args => i.defId.symbol ++ "::<" ++ String.intercalate ", " (args.map Ty.render) ++ ">"

/-- The text that identifies the instance to the linker, before hashing. -/
def key (i : Instance) : String :=
  i.defId.symbol ++ "|" ++ String.intercalate "," (i.args.map Ty.render)

/-- The first sixteen hexadecimal digits of the digest of the key. -/
def keyHash (i : Instance) : String :=
  String.ofList ((Sha256.hexDigest i.key.toUTF8.toList).take 16)

/-- A character that a linker symbol may hold. -/
def isSymbolChar (c : Char) : Bool :=
  c.isAlphanum || c == '_' || c == '$' || c == '.'

/-- A symbol with `::` written as a dot and other unsafe characters as underscores. -/
def sanitize : List Char → List Char
  | ':' :: ':' :: rest => '.' :: sanitize rest
  | c :: rest => (if isSymbolChar c then c else '_') :: sanitize rest
  | [] => []

/-- The symbol of the instance for a linker. -/
def mangledName (i : Instance) : String :=
  "_M" ++ String.ofList (sanitize i.defId.symbol.toList) ++ "$h" ++ i.keyHash

/-- The structural description. -/
def describe (i : Instance) : String :=
  Describe.record "Instance"
    [("def_id", i.defId.describe), ("args", Describe.tuple (i.args.map Ty.describe))]

end Instance

end MirAudit
