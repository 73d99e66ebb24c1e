import SchemaScope.Text

/-!
Settings of scopes and of navigation, and the documents that hold them.

A document holds settings as a record of named fields, or as a sequence in the order of the fields.
Fields that are left out take their standard values.
-/

set_option autoImplicit false

namespace SchemaScope

def standardDescriptorPath : String := "google/protobuf/descriptor.proto"

structure Settings where
  /-- The import path that stands for the built-in catalogue. -/
  descriptorPath : String
  /-- Whether the public imports of imported files are followed. -/
  followPublic : Bool
  /-- Whether navigation activates the editor that it opens. -/
  activateEditor : Bool
deriving DecidableEq

namespace Settings

def standard : Settings := ⟨standardDescriptorPath, true, true⟩

/-- Whether an import path stands for the built-in catalogue. Leading `./` steps of the import do
not count; the configured path is taken as it is written. -/
def isDescriptor (settings : Settings) (path : String) : Bool :=
  Text.canonicalPath path = settings.descriptorPath

def quoted (text : String) : String :=
  let escaped := text.toList.flatMap fun char =>
    if char = '"' ∨ char = '\\' then ['\\', char] else [char]
  "\"" ++ String.ofList escaped ++ "\""

def flagWord (flag : Bool) : String := if flag then "true" else "false"

def term (settings : Settings) : String :=
  "ScopeConfig \x7b descriptor_import: " ++ quoted settings.descriptorPath
    ++ ", follow_public_imports: " ++ flagWord settings.followPublic
    ++ ", activate_editor: " ++ flagWord settings.activateEditor ++ " \x7d"

def builderTerm (settings : Settings) : String :=
  "TypeDescriptions \x7b config: " ++ settings.term ++ ", .. \x7d"

end Settings

/-! ## Documents -/

inductive Document where
  | text (value : String)
  | flag (value : Bool)
  | sequence (items : List Document)
  | record (fields : List (String × Document))
  | other

namespace Document

def text? : Document → Option String
  | .text value => some value
  | _ => none

def flag? : Document → Option Bool
  | .flag value => some value
  | _ => none

/-- A part that may be left out but must not be of another kind. -/
def orStandard {α : Type} (read : Document → Option α) (standard : α) : Option Document → Option α
  | none => some standard
  | some document => read document

end Document

namespace Settings

def ofParts? (path follow activate : Option Document) : Option Settings := do
  let descriptorPath ← Document.orStandard Document.text? standard.descriptorPath path
  let followPublic ← Document.orStandard Document.flag? standard.followPublic follow
  let activateEditor ← Document.orStandard Document.flag? standard.activateEditor activate
  pure { descriptorPath, followPublic, activateEditor }

/-- Reads settings. Unknown fields of a record are passed over; a sequence has at most three
items. -/
def ofDocument? : Document → Option Settings
  | .record fields =>
      ofParts? (fields.lookup "descriptor_import") (fields.lookup "follow_public_imports")
        (fields.lookup "activate_editor")
  | .sequence items =>
      if items.length ≤ 3 then ofParts? items[0]? items[1]? items[2]? else none
  | _ => none

def toDocument (settings : Settings) : Document :=
  .record
    [("descriptor_import", .text settings.descriptorPath),
     ("follow_public_imports", .flag settings.followPublic),
     ("activate_editor", .flag settings.activateEditor)]

end Settings

end SchemaScope
