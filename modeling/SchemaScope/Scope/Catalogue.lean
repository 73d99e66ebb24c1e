import SchemaScope.Scope.Offers
import SchemaScope.Settings

/-!
The built-in catalogue: the declarations of the descriptor file.

An import of the descriptor yields these declarations and never a loaded file. The catalogue is
listed once with every kind of declaration; a request filters that list and gives it the path under
which the descriptor is imported.
-/

set_option autoImplicit false

namespace SchemaScope.Catalogue

def message (name : String) (members : Forest Outline) : Forest Outline :=
  .tree ⟨.message, name, .origin⟩ members

def enumeration (name : String) (values : List String) : Forest Outline :=
  .tree ⟨.enum, name, .origin⟩ (.leaves (values.map fun value => ⟨.enumValue, value, .origin⟩))

def fields (names : List String) : Forest Outline :=
  .leaves (names.map fun name => ⟨.field, name, .origin⟩)

def descriptors : Forest Outline :=
  message "FileDescriptorSet" (fields ["file"])
  ++ message "FileDescriptorProto" (fields
      ["name", "package", "dependency", "public_dependency", "weak_dependency", "message_type",
       "enum_type", "service", "extension", "options", "source_code_info", "syntax"])
  ++ message "DescriptorProto"
      (fields ["name", "field", "extension", "nested_type", "enum_type"]
      ++ message "ExtensionRange" (fields ["start", "end", "options"])
      ++ fields ["extension_range", "oneof_decl", "options"]
      ++ message "ReservedRange" (fields ["start", "end"])
      ++ fields ["reserved_range", "reserved_name"])
  ++ message "ExtensionRangeOptions" (fields ["uninterpreted_option"])
  ++ message "FieldDescriptorProto"
      (enumeration "Type"
        ["TYPE_DOUBLE", "TYPE_FLOAT", "TYPE_INT64", "TYPE_UINT64", "TYPE_INT32", "TYPE_FIXED64",
         "TYPE_FIXED32", "TYPE_BOOL", "TYPE_STRING", "TYPE_GROUP", "TYPE_MESSAGE", "TYPE_BYTES",
         "TYPE_UINT32", "TYPE_ENUM", "TYPE_SFIXED32", "TYPE_SFIXED64", "TYPE_SINT32",
         "TYPE_SINT64"]
      ++ enumeration "Label" ["LABEL_OPTIONAL", "LABEL_REQUIRED", "LABEL_REPEATED"]
      ++ fields
        ["name", "number", "label", "type", "type_name", "extendee", "default_value",
         "oneof_index", "json_name", "options", "proto3_optional"])
  ++ message "OneofDescriptorProto" (fields ["name", "options"])
  ++ message "EnumDescriptorProto"
      (fields ["name", "value", "options"]
      ++ message "EnumReservedRange" (fields ["start", "end"])
      ++ fields ["reserved_range", "reserved_name"])
  ++ message "EnumValueDescriptorProto" (fields ["name", "number", "options"])
  ++ message "ServiceDescriptorProto" (fields ["name", "method", "options"])
  ++ message "MethodDescriptorProto" (fields
      ["name", "input_type", "output_type", "options", "client_streaming", "server_streaming"])

def options : Forest Outline :=
  message "FileOptions"
      (fields
        ["java_package", "java_outer_classname", "java_multiple_files", "java_string_check_utf8"]
      ++ enumeration "OptimizeMode" ["SPEED", "CODE_SIZE", "LITE_RUNTIME"]
      ++ fields
        ["optimize_for", "go_package", "cc_generic_services", "java_generic_services",
         "py_generic_services", "deprecated", "cc_enable_arenas", "objc_class_prefix",
         "csharp_namespace", "uninterpreted_option"])
  ++ message "MessageOptions" (fields
      ["message_set_wire_format", "no_standard_descriptor_accessor", "deprecated", "map_entry",
       "uninterpreted_option"])
  ++ message "FieldOptions"
      (fields ["ctype"]
      ++ enumeration "CType" ["STRING", "CORD", "STRING_PIECE"]
      ++ fields ["packed", "jstype"]
      ++ enumeration "JSType" ["JS_NORMAL", "JS_STRING", "JS_NUMBER"]
      ++ fields ["lazy", "deprecated", "weak", "uninterpreted_option"])
  ++ message "OneofOptions" (fields ["uninterpreted_option"])
  ++ message "EnumOptions" (fields ["allow_alias", "deprecated", "uninterpreted_option"])
  ++ message "EnumValueOptions" (fields ["deprecated", "uninterpreted_option"])
  ++ message "ServiceOptions" (fields ["deprecated", "uninterpreted_option"])
  ++ message "MethodOptions"
      (fields ["deprecated"]
      ++ enumeration "IdempotencyLevel"
        ["IDEMPOTENCY_UNKNOWN", "NO_SIDE_EFFECTS", "IDEMPOTENT"]
      ++ fields ["idempotency_level", "uninterpreted_option"])
  ++ message "UninterpretedOption"
      (message "NamePart" (fields ["name_part", "is_extension"])
      ++ fields
        ["name", "identifier_value", "positive_int_value", "negative_int_value", "double_value",
         "string_value", "aggregate_value"])

def locations : Forest Outline :=
  message "SourceCodeInfo"
      (message "Location" (fields
        ["path", "span", "leading_comments", "trailing_comments", "leading_detached_comments"])
      ++ fields ["location"])
  ++ message "GeneratedCodeInfo"
      (message "Annotation" (fields ["path", "source_file", "begin", "end"])
      ++ fields ["annotation"])

def declarations : Forest Node :=
  numberFrom 0 (descriptors ++ options ++ locations)

def package : Package := ⟨["google", "protobuf"]⟩

def resourceAt (path : String) : Resource :=
  SchemaFile.toResource ⟨.builtin, path, package, [], declarations⟩

def resource : Resource := resourceAt standardDescriptorPath

def complete : List Description := resource.listing .all

def listing (filter : Filter) : List Description :=
  complete.filter fun description => filter.accepts description.declaration.kind

def relocate (path : String) (description : Description) : Description :=
  { description with declaration := { description.declaration with uri := path } }

/-- The declarations that a filter lets through, at the path under which they are imported. -/
def listingAt (filter : Filter) (path : String) : List Description :=
  if path = standardDescriptorPath then listing filter
  else (listing filter).map (relocate path)

end SchemaScope.Catalogue
