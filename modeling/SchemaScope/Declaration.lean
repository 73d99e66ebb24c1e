import SchemaScope.Collection.Forest
import SchemaScope.Name
import SchemaScope.Source

/-!
Declarations: their kinds, their outlines and numbering, and their records.

An outline is what a parser knows of a declaration. Numbering a forest of outlines gives each node
the ordinal of its place in pre-order, so ordinals in one file are distinct and without gaps. A
record is a copy that stands on its own: it says where the declaration is and what it declares.
-/

set_option autoImplicit false

namespace SchemaScope

/-! ## Kinds -/

/-- What a declaration declares. A group is a message declared together with its field. -/
inductive Kind where
  | message
  | group
  | enum
  | enumValue
  | field
  | service
  | rpc
deriving DecidableEq

namespace Kind

def label : Kind → String
  | .message => "message"
  | .group => "group"
  | .enum => "enum"
  | .enumValue => "enum value"
  | .field => "field"
  | .service => "service"
  | .rpc => "rpc"

def term : Kind → String
  | .message => "Message"
  | .group => "Group"
  | .enum => "Enum"
  | .enumValue => "Literal"
  | .field => "Field"
  | .service => "Service"
  | .rpc => "Rpc"

def isMessageLike : Kind → Bool
  | .message | .group => true
  | _ => false

theorem isMessageLike_iff {kind : Kind} :
    kind.isMessageLike = true ↔ kind = .message ∨ kind = .group := by
  cases kind <;> simp [isMessageLike]

def isType : Kind → Bool
  | .message | .group | .enum => true
  | _ => false

/-- Services, rpcs, fields and enum values are no types. -/
theorem isType_iff {kind : Kind} :
    kind.isType = true ↔ kind = .message ∨ kind = .group ∨ kind = .enum := by
  cases kind <;> simp [isType]

/-- Whether the name of a declaration qualifies the names of its children. The values of an enum are
named beside the enum, not inside it. -/
def opensScope : Kind → Bool
  | .message | .group | .service => true
  | _ => false

end Kind

inductive Filter where
  | all
  | types
  | messages
  | enums
  | fields
  | only (kind : Kind)
deriving DecidableEq

namespace Filter

def accepts : Filter → Kind → Bool
  | .all, _ => true
  | .types, kind => kind.isType
  | .messages, kind => kind.isMessageLike
  | .enums, kind => kind = .enum
  | .fields, kind => kind = .field
  | .only chosen, kind => kind = chosen

def term : Filter → String
  | .all => "All"
  | .types => "Types"
  | .messages => "Messages"
  | .enums => "Enums"
  | .fields => "Fields"
  | .only kind => "Kind(" ++ kind.term ++ ")"

end Filter

/-! ## Outlines -/

structure Outline where
  kind : Kind
  name : String
  range : TextRange
deriving DecidableEq

structure Node extends Outline where
  ordinal : UInt32
deriving DecidableEq

/-- Numbers the nodes of a forest in pre-order, starting with `next`. -/
def numberFrom (next : Nat) : Forest Outline → Forest Node
  | .nil => .nil
  | .cons outline children siblings =>
      .cons ⟨outline, UInt32.ofNat next⟩ (numberFrom (next + 1) children)
        (numberFrom (next + 1 + children.size) siblings)

/-- Numbers the nodes of a forest from zero, if the counter of ordinals has room for them all. -/
def number? (forest : Forest Outline) : Option (Forest Node) :=
  if forest.size < UInt32.size then some (numberFrom 0 forest) else none

/-- Numbering keeps the shape of a forest and everything that the outlines say. -/
@[simp] theorem map_toOutline_numberFrom (next : Nat) (forest : Forest Outline) :
    (numberFrom next forest).map Node.toOutline = forest := by
  induction forest generalizing next with
  | nil => rfl
  | cons outline children siblings childrenIH siblingsIH =>
      simp [numberFrom, Forest.map, childrenIH, siblingsIH]

/-! ## Records -/

structure Declaration where
  id : DeclarationId
  kind : Kind
  name : String
  uri : String
  range : TextRange
deriving DecidableEq

def Node.record (node : Node) (file : FileId) (uri : String) : Declaration :=
  { id := ⟨file, node.ordinal⟩, kind := node.kind, name := node.name, uri, range := node.range }

/-- A declaration and one name under which it is visible. -/
structure Description where
  name : QualifiedName
  declaration : Declaration
deriving DecidableEq

end SchemaScope
