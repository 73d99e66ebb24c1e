/-!
Identities of files and declarations, and places in source text.

A file id is a number; the largest one is kept for the built-in catalogue. A declaration id adds the
ordinal of the declaration within its file.

Lines and columns are stored from zero and shown from one, so the largest line and the largest
column have no shown form. A range of offsets never ends before it starts.
-/

set_option autoImplicit false

namespace SchemaScope

/-! ## Identities -/

structure FileId where
  index : UInt32
deriving DecidableEq

namespace FileId

/-- The id of the built-in catalogue. No loaded file is given it. -/
def builtin : FileId := ⟨0xFFFFFFFF⟩

def isBuiltin (id : FileId) : Bool := id = builtin

theorem isBuiltin_mk_iff {index : UInt32} :
    (⟨index⟩ : FileId).isBuiltin = true ↔ index = 0xFFFFFFFF := by
  simp [isBuiltin, builtin]

def label (id : FileId) : String :=
  if id.isBuiltin then "builtin" else "file#" ++ toString id.index.toNat

def term (id : FileId) : String :=
  if id.isBuiltin then "FileId(builtin)" else "FileId(" ++ toString id.index.toNat ++ ")"

end FileId

structure DeclarationId where
  file : FileId
  ordinal : UInt32
deriving DecidableEq

def ordinalTerm (ordinal : UInt32) : String :=
  "LocalDeclId(" ++ toString ordinal.toNat ++ ")"

namespace DeclarationId

def term (id : DeclarationId) : String :=
  "DeclId(" ++ id.file.term ++ ":" ++ toString id.ordinal.toNat ++ ")"

def le (left right : DeclarationId) : Bool :=
  left.file.index < right.file.index ||
    (left.file.index = right.file.index && left.ordinal ≤ right.ordinal)

def sort (ids : List DeclarationId) : List DeclarationId :=
  ids.mergeSort le

end DeclarationId

/-! ## Positions -/

/-- A zero-based line and column. -/
structure Position where
  line : UInt32
  column : UInt32
deriving DecidableEq

/-- A number one larger, unless it is already the largest. -/
def successor? (number : UInt32) : Option UInt32 :=
  if number = 0xFFFFFFFF then none else some (number + 1)

def zeroBased (number : UInt32) : UInt32 :=
  if number = 0 then 0 else number - 1

namespace Position

def origin : Position := ⟨0, 0⟩

/-- The position that an editor reports as this line and column, counted from one. -/
def ofOneBased (line column : UInt32) : Position :=
  ⟨zeroBased line, zeroBased column⟩

def shown? (position : Position) : Option (UInt32 × UInt32) := do
  let line ← successor? position.line
  let column ← successor? position.column
  pure (line, column)

def render? (position : Position) : Option String :=
  position.shown?.map fun (line, column) => toString line.toNat ++ ":" ++ toString column.toNat

end Position

/-! ## Ranges -/

structure TextRange where
  start : UInt32
  stop : UInt32
  ordered : start ≤ stop
deriving DecidableEq

namespace TextRange

def origin : TextRange := ⟨0, 0, by decide⟩

def make? (start stop : UInt32) : Option TextRange :=
  if ordered : start ≤ stop then some ⟨start, stop, ordered⟩ else none

end TextRange

end SchemaScope
