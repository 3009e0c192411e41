import InterfaceLang.Document
import InterfaceLang.Model

/-!
# Models as documents

The form in which a model is handed to generators. A type is an object with one entry that names
its kind. The positions of references and the name of the model's file are left out.
-/

namespace InterfaceLang

/-- The document of a position. -/
def Position.toDocument (p : Position) : Document :=
  .object [("file", .string p.file), ("line", .number p.line), ("column", .number p.column),
    ("offset", .number p.offset)]

/-- The document of a type. -/
def TypeExpr.toDocument : TypeExpr → Document
  | builtIn b => .object [("builtIn", .string b.text)]
  | array e => .object [("array", e.toDocument)]
  | mapOf v => .object [("mapValue", v.toDocument)]
  | named r => .object [("userDefined", .string r.name)]

/-- The document of a parameter. -/
def Parameter.toDocument (p : Parameter) : Document :=
  .object [("name", .string p.name), ("type", p.type.toDocument), ("pos", p.pos.toDocument)]

/-- The document of a return type, null if there is none. -/
def Method.returnsDocument (m : Method) : Document :=
  match m.returns with
  | some t => t.toDocument
  | none => .null

/-- The document of a method. -/
def Method.toDocument (m : Method) : Document :=
  .object [("name", .string m.name), ("parameters", .array (m.parameters.map (·.toDocument))),
    ("returnType", m.returnsDocument), ("returnOptional", .bool m.returnOptional),
    ("comment", .string m.comment), ("pos", m.pos.toDocument)]

/-- The document of an interface. -/
def Interface.toDocument (i : Interface) : Document :=
  .object [("name", .string i.name), ("namespace", .string i.ns),
    ("methods", .array (i.methods.map (·.toDocument))), ("comment", .string i.comment),
    ("pos", i.pos.toDocument)]

/-- The document of a field. -/
def Field.toDocument (f : Field) : Document :=
  .object [("name", .string f.name), ("type", f.type.toDocument), ("optional", .bool f.optional),
    ("comment", .string f.comment), ("pos", f.pos.toDocument)]

/-- The document of a struct. -/
def Struct.toDocument (s : Struct) : Document :=
  .object [("name", .string s.name), ("namespace", .string s.ns), ("extends", .string s.parent),
    ("fields", .array (s.fields.map (·.toDocument))), ("comment", .string s.comment),
    ("pos", s.pos.toDocument)]

/-- The document of an enum value. -/
def EnumValue.toDocument (v : EnumValue) : Document :=
  .object [("name", .string v.name), ("comment", .string v.comment), ("pos", v.pos.toDocument)]

/-- The document of an enum. -/
def Enum.toDocument (e : Enum) : Document :=
  .object [("name", .string e.name), ("namespace", .string e.ns),
    ("values", .array (e.values.map (·.toDocument))), ("comment", .string e.comment),
    ("pos", e.pos.toDocument)]

/-- The introspection document of a model. -/
def Model.toDocument (m : Model) : Document :=
  .object [("rootNamespace", .string m.rootNs),
    ("interfaces", .array (m.interfaces.map (·.toDocument))),
    ("structs", .array (m.structs.map (·.toDocument))),
    ("enums", .array (m.enums.map (·.toDocument)))]

end InterfaceLang
