import InterfaceLang.Grammar.Reader
import InterfaceLang.Tree

/-!
# The grammar

A file is a sequence of elements. With `[ ]` for "at most once" and `{ }` for "any number":

* element: namespace, interface, struct or enum
* namespace: `namespace` name
* interface: `interface` name `{` { method } `}`
* method: name `(` [ parameter { `,` parameter } ] `)` type [ `[optional]` ]
* parameter: name type
* struct: `struct` name [ `extends` dotted name ] `{` { field } `}`
* field: name type [ `[optional]` ]
* enum: `enum` name `{` { name } `}`
* type: any number of layers `[ ]` and `map [ string ]`, then a built-in type or a dotted name
* dotted name: name { `.` name }

Results: every production advances (`advances_element` and its companions), so that a file is read
in finitely many steps (`file`).
-/

namespace InterfaceLang.Grammar

/-! ## Names -/

/-- The name that an identifier token holds. -/
def identOf? (t : Token) : Option Ident :=
  match t.kind with
  | .identifier name => some ⟨name, t.pos⟩
  | _ => none

/-- A name. -/
def ident (expected : Expected) : Reader Ident :=
  takeIf expected identOf?

theorem advances_ident (expected : Expected) : Advances (ident expected) :=
  advances_takeIf _ _

/-- A dot and the name after it. -/
def dotName : Reader Ident := do
  let _ ← token (.punct .dot)
  ident .nameAfterDot

theorem advances_dotName : Advances dotName :=
  (advances_token _).bind fun _ => (advances_ident _).toReads

/-- A dotted name, as one name with the position of its first part. -/
def qualifiedName (expected : Expected) : Reader Ident := do
  let first ← ident expected
  let parts ← manyUntil (fun ts => !startsWith (.punct .dot) ts) dotName advances_dotName
  pure ⟨".".intercalate (first.name :: parts.map (·.name)), first.pos⟩

theorem advances_qualifiedName (expected : Expected) : Advances (qualifiedName expected) :=
  (advances_ident _).bind fun _ => (reads_manyUntil _ _ _).bind fun _ => reads_pure _

/-! ## Types -/

/-- What may be wrapped around a type. -/
inductive Layer where
  | array
  | mapOf
  deriving DecidableEq, Repr

/-- The type inside a layer. -/
def Layer.wrap : Layer → TypeExpr → TypeExpr
  | array, t => .array t
  | mapOf, t => .mapOf t

/-- An array layer. -/
def arrayLayer : Reader Layer := do
  let _ ← token (.punct .lbracket)
  let _ ← token (.punct .rbracket)
  pure .array

theorem advances_arrayLayer : Advances arrayLayer :=
  (advances_token _).bind fun _ => (advances_token _).toReads.bind fun _ => reads_pure _

/-- A map layer; its key is always `string`. -/
def mapLayer : Reader Layer := do
  let _ ← token (.keyword .mapKw)
  let _ ← token (.punct .lbracket)
  let _ ← tokenAs .mapKey (.builtIn .string)
  let _ ← token (.punct .rbracket)
  pure .mapOf

theorem advances_mapLayer : Advances mapLayer :=
  (advances_token _).bind fun _ => (advances_token _).toReads.bind fun _ =>
    (advances_tokenAs _ _).toReads.bind fun _ => (advances_token _).toReads.bind fun _ =>
    reads_pure _

/-- Whether a layer begins at the next token. -/
def atLayer (ts : List Token) : Bool :=
  startsWith (.punct .lbracket) ts || startsWith (.keyword .mapKw) ts

/-- An array or map layer. -/
def layer : Reader Layer := do
  match ← peek with
  | some (.keyword .mapKw) => mapLayer
  | _ => arrayLayer

theorem advances_layer : Advances layer :=
  reads_peek.bindAdvances fun k => by
    split
    · exact advances_mapLayer
    · exact advances_arrayLayer

/-- The built-in type that a token names. -/
def builtInOf? (t : Token) : Option BuiltIn :=
  match t.kind with
  | .builtIn b => some b
  | _ => none

/-- A type without layers. -/
def leafType : Reader TypeExpr := do
  match ← peek with
  | some (.builtIn _) => TypeExpr.builtIn <$> takeIf .type builtInOf?
  | _ => (fun name => TypeExpr.named ⟨name.name, name.pos⟩) <$> qualifiedName .type

theorem advances_leafType : Advances leafType :=
  reads_peek.bindAdvances fun k => by
    split
    · exact (advances_takeIf _ _).map _
    · exact (advances_qualifiedName _).map _

/-- A type. -/
def typeExpr : Reader TypeExpr := do
  let layers ← manyUntil (fun ts => !atLayer ts) layer advances_layer
  let leaf ← leafType
  pure (layers.foldr Layer.wrap leaf)

theorem advances_typeExpr : Advances typeExpr :=
  (reads_manyUntil _ _ _).bindAdvances fun _ => advances_leafType.bind fun _ => reads_pure _

/-! ## Members -/

/-- A parameter. -/
def param : Reader ParamDecl := do
  let name ← ident .parameterName
  let type ← typeExpr
  pure ⟨name, type⟩

theorem advances_param : Advances param :=
  (advances_ident _).bind fun _ => advances_typeExpr.toReads.bind fun _ => reads_pure _

/-- A comma and the parameter after it. -/
def commaParam : Reader ParamDecl := do
  let _ ← token (.punct .comma)
  param

theorem advances_commaParam : Advances commaParam :=
  (advances_token _).bind fun _ => advances_param.toReads

/-- The parameters of a method, up to the closing parenthesis. -/
def params : Reader (List ParamDecl) := do
  match ← peek with
  | some (.punct .rparen) => pure []
  | _ => do
    let first ← param
    let more ← manyUntil (fun ts => !startsWith (.punct .comma) ts) commaParam advances_commaParam
    pure (first :: more)

theorem reads_params : Reads params :=
  reads_peek.bind fun k => by
    split
    · exact reads_pure _
    · exact advances_param.toReads.bind fun _ => (reads_manyUntil _ _ _).bind fun _ => reads_pure _

/-- A method. -/
def method : Reader MethodDecl := do
  let name ← ident .methodName
  let _ ← token (.punct .lparen)
  let ps ← params
  let _ ← token (.punct .rparen)
  let returns ← typeExpr
  let optional ← optionally .optionalMark
  pure ⟨name, ps, returns, optional⟩

theorem advances_method : Advances method :=
  (advances_ident _).bind fun _ => (advances_token _).toReads.bind fun _ =>
    reads_params.bind fun _ => (advances_token _).toReads.bind fun _ =>
    advances_typeExpr.toReads.bind fun _ => (reads_optionally _).bind fun _ => reads_pure _

/-- A field. -/
def field : Reader FieldDecl := do
  let name ← ident .fieldName
  let type ← typeExpr
  let optional ← optionally .optionalMark
  pure ⟨name, type, optional⟩

theorem advances_field : Advances field :=
  (advances_ident _).bind fun _ => advances_typeExpr.toReads.bind fun _ =>
    (reads_optionally _).bind fun _ => reads_pure _

/-! ## Declarations -/

/-- A body in braces: the line of its opening brace and its members. -/
def body {α : Type} (member : Reader α) (h : Advances member) : Reader (Nat × List α) := do
  let brace ← token (.punct .lbrace)
  let members ← manyUntil (startsWith (.punct .rbrace)) member h
  let _ ← token (.punct .rbrace)
  pure (brace.pos.line, members)

theorem advances_body {α : Type} (member : Reader α) (h : Advances member) :
    Advances (body member h) :=
  (advances_token _).bind fun _ => (reads_manyUntil _ _ _).bind fun _ =>
    (advances_token _).toReads.bind fun _ => reads_pure _

/-- A namespace declaration. -/
def namespaceDecl : Reader NamespaceDecl := do
  let kw ← token (.keyword .namespaceKw)
  let name ← ident .namespaceName
  pure ⟨name, kw.pos⟩

theorem advances_namespaceDecl : Advances namespaceDecl :=
  (advances_token _).bind fun _ => (advances_ident _).toReads.bind fun _ => reads_pure _

/-- An interface. -/
def interfaceDecl : Reader InterfaceDecl := do
  let kw ← token (.keyword .interfaceKw)
  let name ← ident .interfaceName
  let b ← body method advances_method
  pure ⟨name, b.2, kw.pos, b.1⟩

theorem advances_interfaceDecl : Advances interfaceDecl :=
  (advances_token _).bind fun _ => (advances_ident _).toReads.bind fun _ =>
    (advances_body _ _).toReads.bind fun _ => reads_pure _

/-- The parent of a struct, after the keyword `extends`. -/
def parentName : Reader (Option Ident) := do
  match ← peek with
  | some (.keyword .extendsKw) => do
    let _ ← token (.keyword .extendsKw)
    some <$> qualifiedName .parentName
  | _ => pure none

theorem reads_parentName : Reads parentName :=
  reads_peek.bind fun k => by
    split
    · exact (advances_token _).toReads.bind fun _ => ((advances_qualifiedName _).map _).toReads
    · exact reads_pure _

/-- A struct. -/
def structDecl : Reader StructDecl := do
  let kw ← token (.keyword .structKw)
  let name ← ident .structName
  let parent ← parentName
  let b ← body field advances_field
  pure ⟨name, parent, b.2, kw.pos, b.1⟩

theorem advances_structDecl : Advances structDecl :=
  (advances_token _).bind fun _ => (advances_ident _).toReads.bind fun _ =>
    reads_parentName.bind fun _ => (advances_body _ _).toReads.bind fun _ => reads_pure _

/-- An enum. -/
def enumDecl : Reader EnumDecl := do
  let kw ← token (.keyword .enumKw)
  let name ← ident .enumName
  let b ← body (ident .enumValue) (advances_ident _)
  pure ⟨name, b.2, kw.pos, b.1⟩

theorem advances_enumDecl : Advances enumDecl :=
  (advances_token _).bind fun _ => (advances_ident _).toReads.bind fun _ =>
    (advances_body _ _).toReads.bind fun _ => reads_pure _

/-- An element. -/
def element : Reader Element := do
  match ← peek with
  | some (.keyword .namespaceKw) => .namespaceDecl <$> namespaceDecl
  | some (.keyword .interfaceKw) => .interfaceDecl <$> interfaceDecl
  | some (.keyword .structKw) => .structDecl <$> structDecl
  | some (.keyword .enumKw) => .enumDecl <$> enumDecl
  | _ => stuck .element

theorem advances_element : Advances element :=
  reads_peek.bindAdvances fun k => by
    split
    · exact advances_namespaceDecl.map _
    · exact advances_interfaceDecl.map _
    · exact advances_structDecl.map _
    · exact advances_enumDecl.map _
    · exact advances_stuck _

/-- The elements of a whole file. -/
def file : Reader (List Element) :=
  manyUntil List.isEmpty element advances_element

theorem reads_file : Reads file :=
  reads_manyUntil _ _ _

theorem rest_eq_nil_of_file {ts rest : List Token} {es : List Element}
    (h : file ts = .ok (es, rest)) : rest = [] :=
  List.isEmpty_iff.1 (done_of_manyUntil h)

end InterfaceLang.Grammar
