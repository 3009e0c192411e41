import InterfaceLang.Tree

/-!
# Derivations

The trees that the grammar gives to token streams. Each production is a type of trees: a sequence is
a product, `[ ]` is `Option`, `{ }` is `List`, and alternatives are a sum or the constructors of an
inductive type. The leaves are tokens, each with a proof that it is of the kind that the production
asks for, so that nothing but derivations can be built. A tree derives the stream of its leaves, and
it means a part of the tree of a file.

* file: { element }
* element: namespace, interface, struct or enum
* namespace: `namespace` name
* interface: `interface` name `{` { method } `}`
* method: name `(` [ parameter { `,` parameter } ] `)` type [ `[optional]` ]
* parameter: name type
* struct: `struct` name [ `extends` dotted name ] `{` { field } `}`
* field: name type [ `[optional]` ]
* enum: `enum` name `{` { name } `}`
* type: built-in type, `[` `]` type, `map` `[` `string` `]` type, or dotted name
* dotted name: name { `.` name }
-/

namespace InterfaceLang.Grammar

/-! ## Leaves -/

/-- Trees over tokens. -/
class Phrase (δ : Type) where
  /-- The leaves of a tree from left to right. -/
  leaves : δ → List Token

export Phrase (leaves)

/-- A token of the given kind. -/
structure Leaf (kind : TokenKind) where
  token : Token
  kind_eq : token.kind = kind

/-- An identifier. -/
structure NameLeaf where
  token : Token
  name : String
  kind_eq : token.kind = .identifier name

/-- The word for a built-in type. -/
structure BuiltInLeaf where
  token : Token
  builtIn : BuiltIn
  kind_eq : token.kind = .builtIn builtIn

instance (kind : TokenKind) : Phrase (Leaf kind) := ⟨fun l => [l.token]⟩

instance : Phrase NameLeaf := ⟨fun n => [n.token]⟩

instance : Phrase BuiltInLeaf := ⟨fun b => [b.token]⟩

/-! ## Sequences, alternatives, options and repetitions -/

section Combined

variable {δ ε : Type} [Phrase δ] [Phrase ε]

instance : Phrase (δ × ε) := ⟨fun d => leaves d.1 ++ leaves d.2⟩

instance : Phrase (δ ⊕ ε) := ⟨Sum.elim leaves leaves⟩

instance : Phrase (Option δ) := ⟨fun d => (d.map leaves).getD []⟩

instance : Phrase (List δ) := ⟨fun ds => ds.flatMap leaves⟩

@[simp]
theorem leaves_leaf {kind : TokenKind} (l : Leaf kind) : leaves l = [l.token] := rfl

@[simp]
theorem leaves_nameLeaf (n : NameLeaf) : leaves n = [n.token] := rfl

@[simp]
theorem leaves_builtInLeaf (b : BuiltInLeaf) : leaves b = [b.token] := rfl

@[simp]
theorem leaves_pair (d : δ) (e : ε) : leaves (d, e) = leaves d ++ leaves e := rfl

@[simp]
theorem leaves_inl (d : δ) : leaves (.inl d : δ ⊕ ε) = leaves d := rfl

@[simp]
theorem leaves_inr (e : ε) : leaves (.inr e : δ ⊕ ε) = leaves e := rfl

@[simp]
theorem leaves_none : leaves (none : Option δ) = [] := rfl

@[simp]
theorem leaves_some (d : δ) : leaves (some d) = leaves d := rfl

@[simp]
theorem leaves_nil : leaves ([] : List δ) = [] := rfl

@[simp]
theorem leaves_cons (d : δ) (ds : List δ) : leaves (d :: ds) = leaves d ++ leaves ds := rfl

end Combined

/-! ## Productions -/

/-- A dotted name. -/
abbrev DottedTree :=
  NameLeaf × List (Leaf (.punct .dot) × NameLeaf)

/-- The brackets of an array type. -/
abbrev BracketsTree :=
  Leaf (.punct .lbracket) × Leaf (.punct .rbracket)

/-- What stands before the values of a map type. -/
abbrev KeyTree :=
  Leaf (.keyword .mapKw) × Leaf (.punct .lbracket) × Leaf (.builtIn .string) ×
    Leaf (.punct .rbracket)

/-- A type. -/
inductive TypeTree where
  | builtIn (b : BuiltInLeaf)
  | array (brackets : BracketsTree) (element : TypeTree)
  | mapOf (key : KeyTree) (value : TypeTree)
  | named (name : DottedTree)

/-- The leaves of a type. -/
def TypeTree.leaves : TypeTree → List Token
  | builtIn b => Phrase.leaves b
  | array brackets element => Phrase.leaves brackets ++ element.leaves
  | mapOf key value => Phrase.leaves key ++ value.leaves
  | named name => Phrase.leaves name

instance : Phrase TypeTree := ⟨TypeTree.leaves⟩

/-- A parameter. -/
abbrev ParamTree :=
  NameLeaf × TypeTree

/-- The parameters of a method. -/
abbrev ParamsTree :=
  Option (ParamTree × List (Leaf (.punct .comma) × ParamTree))

/-- A method. -/
abbrev MethodTree :=
  NameLeaf × Leaf (.punct .lparen) × ParamsTree × Leaf (.punct .rparen) × TypeTree ×
    Option (Leaf .optionalMark)

/-- A field. -/
abbrev FieldTree :=
  NameLeaf × TypeTree × Option (Leaf .optionalMark)

/-- A body with members in braces. -/
abbrev BodyTree (δ : Type) :=
  Leaf (.punct .lbrace) × List δ × Leaf (.punct .rbrace)

/-- A namespace declaration. -/
abbrev NamespaceTree :=
  Leaf (.keyword .namespaceKw) × NameLeaf

/-- An interface. -/
abbrev InterfaceTree :=
  Leaf (.keyword .interfaceKw) × NameLeaf × BodyTree MethodTree

/-- The parent of a struct. -/
abbrev ParentTree :=
  Option (Leaf (.keyword .extendsKw) × DottedTree)

/-- A struct. -/
abbrev StructTree :=
  Leaf (.keyword .structKw) × NameLeaf × ParentTree × BodyTree FieldTree

/-- An enum. -/
abbrev EnumTree :=
  Leaf (.keyword .enumKw) × NameLeaf × BodyTree NameLeaf

/-- An element of a file. -/
inductive ElementTree where
  | namespaceDecl (d : NamespaceTree)
  | interfaceDecl (d : InterfaceTree)
  | structDecl (d : StructTree)
  | enumDecl (d : EnumTree)

instance : Phrase ElementTree where
  leaves
    | .namespaceDecl d => leaves d
    | .interfaceDecl d => leaves d
    | .structDecl d => leaves d
    | .enumDecl d => leaves d

/-- A whole file. -/
abbrev SourceTree :=
  List ElementTree

@[simp]
theorem leaves_array (brackets : BracketsTree) (element : TypeTree) :
    leaves (TypeTree.array brackets element) = leaves brackets ++ leaves element := rfl

@[simp]
theorem leaves_mapOf (key : KeyTree) (value : TypeTree) :
    leaves (TypeTree.mapOf key value) = leaves key ++ leaves value := rfl

/-! ## What the trees mean -/

/-- The name that a leaf holds. -/
def NameLeaf.ident (n : NameLeaf) : Ident :=
  ⟨n.name, n.token.pos⟩

/-- A dotted name: its parts joined by dots, at the position of the first. -/
def DottedTree.ident : DottedTree → Ident
  | (first, more) =>
    ⟨".".intercalate (first.name :: more.map fun part => part.2.name), first.token.pos⟩

/-- The type that a tree writes. -/
def TypeTree.type : TypeTree → TypeExpr
  | builtIn b => .builtIn b.builtIn
  | array _ element => .array element.type
  | mapOf _ value => .mapOf value.type
  | named name => .named ⟨(DottedTree.ident name).name, (DottedTree.ident name).pos⟩

/-- The parameter that a tree declares. -/
def ParamTree.decl : ParamTree → ParamDecl
  | (name, type) => ⟨name.ident, type.type⟩

/-- The parameters that a tree declares. -/
def ParamsTree.decls : ParamsTree → List ParamDecl
  | none => []
  | some (first, more) => ParamTree.decl first :: more.map fun part => ParamTree.decl part.2

/-- The method that a tree declares. -/
def MethodTree.decl : MethodTree → MethodDecl
  | (name, _, params, _, returns, mark) =>
    ⟨name.ident, ParamsTree.decls params, returns.type, mark.isSome⟩

/-- The field that a tree declares. -/
def FieldTree.decl : FieldTree → FieldDecl
  | (name, type, mark) => ⟨name.ident, type.type, mark.isSome⟩

/-- The namespace that a tree declares. -/
def NamespaceTree.decl : NamespaceTree → NamespaceDecl
  | (keyword, name) => ⟨name.ident, keyword.token.pos⟩

/-- The interface that a tree declares. -/
def InterfaceTree.decl : InterfaceTree → InterfaceDecl
  | (keyword, name, brace, methods, _) =>
    ⟨name.ident, methods.map MethodTree.decl, keyword.token.pos, brace.token.pos.line⟩

/-- The struct that a tree declares. -/
def StructTree.decl : StructTree → StructDecl
  | (keyword, name, parent, brace, fields, _) =>
    ⟨name.ident, parent.map fun p => DottedTree.ident p.2, fields.map FieldTree.decl,
      keyword.token.pos, brace.token.pos.line⟩

/-- The enum that a tree declares. -/
def EnumTree.decl : EnumTree → EnumDecl
  | (keyword, name, brace, values, _) =>
    ⟨name.ident, values.map NameLeaf.ident, keyword.token.pos, brace.token.pos.line⟩

/-- The element that a tree declares. -/
def ElementTree.element : ElementTree → Element
  | namespaceDecl d => .namespaceDecl (NamespaceTree.decl d)
  | interfaceDecl d => .interfaceDecl (InterfaceTree.decl d)
  | structDecl d => .structDecl (StructTree.decl d)
  | enumDecl d => .enumDecl (EnumTree.decl d)

/-- The elements that the tree of a file declares. -/
def SourceTree.elements (d : SourceTree) : List Element :=
  d.map ElementTree.element

end InterfaceLang.Grammar
