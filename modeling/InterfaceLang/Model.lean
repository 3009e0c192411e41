import InterfaceLang.TypeExpr

/-!
# Models

A model holds the interfaces, structs and enums of a file and of everything it imports. Each
declaration carries the namespace of the file that defines it, its comment and its position; its
name is qualified once it has been imported into another file.
-/

namespace InterfaceLang

/-- The kinds of declarations that define a type name. -/
inductive DeclKind where
  | interface
  | struct
  | enum
  deriving DecidableEq, Repr

/-- The word for a kind of declaration. -/
def DeclKind.text : DeclKind → String
  | interface => "interface"
  | struct => "struct"
  | enum => "enum"

/-- A field of a struct. -/
structure Field where
  name : String
  type : TypeExpr
  optional : Bool
  comment : String
  pos : Position
  deriving DecidableEq, Repr

/-- A struct: its parent and its fields. -/
structure Struct where
  name : String
  /-- The namespace of the defining file, empty if it declares none. -/
  ns : String
  /-- The name of the parent struct, empty if there is none. -/
  parent : String
  fields : List Field
  comment : String
  pos : Position
  deriving DecidableEq, Repr

/-- A parameter of a method. -/
structure Parameter where
  name : String
  type : TypeExpr
  pos : Position
  deriving DecidableEq, Repr

/-- A method of an interface. -/
structure Method where
  name : String
  parameters : List Parameter
  /-- `none` for a method that returns nothing. -/
  returns : Option TypeExpr
  returnOptional : Bool
  comment : String
  pos : Position
  deriving DecidableEq, Repr

/-- An interface: a list of methods. -/
structure Interface where
  name : String
  /-- The namespace of the defining file, empty if it declares none. -/
  ns : String
  methods : List Method
  comment : String
  pos : Position
  deriving DecidableEq, Repr

/-- A value of an enum. -/
structure EnumValue where
  name : String
  comment : String
  pos : Position
  deriving DecidableEq, Repr

/-- An enum: a list of values. -/
structure Enum where
  name : String
  /-- The namespace of the defining file, empty if it declares none. -/
  ns : String
  values : List EnumValue
  comment : String
  pos : Position
  deriving DecidableEq, Repr

/-- The declarations of a file, its own and the imported ones. -/
structure Model where
  /-- The file that the model was built from. -/
  file : String
  /-- The namespace that this file declares, empty if it declares none. -/
  rootNs : String
  interfaces : List Interface
  structs : List Struct
  enums : List Enum
  deriving DecidableEq, Repr

namespace Model

/-- A model without declarations. -/
def empty (file : String) : Model :=
  ⟨file, "", [], [], []⟩

/-- Whether a model has no declarations. -/
def isEmpty (m : Model) : Bool :=
  m.interfaces.isEmpty && m.structs.isEmpty && m.enums.isEmpty

/-- The first struct of the given name. -/
def findStruct? (m : Model) (name : String) : Option Struct :=
  m.structs.find? (·.name = name)

/-- The first enum of the given name. -/
def findEnum? (m : Model) (name : String) : Option Enum :=
  m.enums.find? (·.name = name)

/-- The first interface of the given name. -/
def findInterface? (m : Model) (name : String) : Option Interface :=
  m.interfaces.find? (·.name = name)

end Model

/-- The types that a method mentions: the one it returns, then those of its parameters. -/
def Method.types (m : Method) : List TypeExpr :=
  m.returns.toList ++ m.parameters.map (·.type)

/-- The types that a model mentions: those of its methods, then those of its fields. -/
def Model.types (m : Model) : List TypeExpr :=
  m.interfaces.flatMap (·.methods.flatMap Method.types) ++
    m.structs.flatMap (·.fields.map (·.type))

/-- The references to declared types in a model. -/
def Model.references (m : Model) : List TypeRef :=
  m.types.filterMap TypeExpr.leaf

end InterfaceLang
