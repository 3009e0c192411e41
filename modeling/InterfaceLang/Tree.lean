import InterfaceLang.Directive
import InterfaceLang.TypeExpr

/-!
# The declarations of one file

The tree that reading a file gives: its imports and its elements in the order of the text, each
name and each declaration with its position.
-/

namespace InterfaceLang

/-- A name as written, with the position of its first character. -/
structure Ident where
  name : String
  pos : Position
  deriving DecidableEq, Repr

/-- The bytes of a name, taken to be written without breaks. -/
def Ident.span (i : Ident) : Span :=
  ⟨i.pos.offset, i.name.utf8ByteSize⟩

/-- A namespace declaration. -/
structure NamespaceDecl where
  name : Ident
  /-- The position of the keyword. -/
  pos : Position
  deriving DecidableEq, Repr

/-- A parameter of a method. -/
structure ParamDecl where
  name : Ident
  type : TypeExpr
  deriving DecidableEq, Repr

/-- A method: its parameters, and what it returns. -/
structure MethodDecl where
  name : Ident
  params : List ParamDecl
  returns : TypeExpr
  optional : Bool
  deriving DecidableEq, Repr

/-- An interface declaration. -/
structure InterfaceDecl where
  name : Ident
  methods : List MethodDecl
  /-- The position of the keyword. -/
  pos : Position
  /-- The line of the opening brace. -/
  bodyLine : Nat
  deriving DecidableEq, Repr

/-- A field of a struct. -/
structure FieldDecl where
  name : Ident
  type : TypeExpr
  optional : Bool
  deriving DecidableEq, Repr

/-- A struct declaration. -/
structure StructDecl where
  name : Ident
  /-- The name after `extends`, its parts joined by dots. -/
  parent : Option Ident
  fields : List FieldDecl
  /-- The position of the keyword. -/
  pos : Position
  /-- The line of the opening brace. -/
  bodyLine : Nat
  deriving DecidableEq, Repr

/-- An enum declaration. -/
structure EnumDecl where
  name : Ident
  values : List Ident
  /-- The position of the keyword. -/
  pos : Position
  /-- The line of the opening brace. -/
  bodyLine : Nat
  deriving DecidableEq, Repr

/-- A top-level declaration. -/
inductive Element where
  | namespaceDecl (d : NamespaceDecl)
  | interfaceDecl (d : InterfaceDecl)
  | structDecl (d : StructDecl)
  | enumDecl (d : EnumDecl)
  deriving DecidableEq, Repr

/-- The namespace declaration that an element is, if it is one. -/
def Element.namespace? : Element → Option NamespaceDecl
  | namespaceDecl d => some d
  | _ => none

/-- The declarations and imports of one file. -/
structure SourceFile where
  file : String
  imports : List Directive
  elements : List Element
  deriving DecidableEq, Repr

/-- The namespace declarations of a file. -/
def SourceFile.namespaces (f : SourceFile) : List NamespaceDecl :=
  f.elements.filterMap Element.namespace?

end InterfaceLang
