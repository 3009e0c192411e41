import InterfaceLang.Position

/-!
# Type expressions

A type is one of four built-in types, an array, a map from strings, or a reference to a declared
type by its (possibly qualified) name. Below its array and map layers every type has one leaf.

Results:
* `TypeExpr.leaf_mapRefs`: changing the references of a type changes its leaf.
-/

namespace InterfaceLang

/-- The built-in types. -/
inductive BuiltIn where
  | string
  | int
  | float
  | bool
  deriving DecidableEq, Repr

namespace BuiltIn

/-- The spelling of a built-in type. -/
def text : BuiltIn → String
  | string => "string"
  | int => "int"
  | float => "float"
  | bool => "bool"

/-- All built-in types. -/
def all : List BuiltIn :=
  [string, int, float, bool]

/-- The built-in type that is spelled `name`. -/
def ofName? (name : String) : Option BuiltIn :=
  all.find? (·.text = name)

end BuiltIn

/-- A reference to a declared type. -/
structure TypeRef where
  name : String
  pos : Position
  deriving DecidableEq, Repr

/-- A type expression. The keys of a map are strings. -/
inductive TypeExpr where
  | builtIn (b : BuiltIn)
  | array (element : TypeExpr)
  | mapOf (value : TypeExpr)
  | named (ref : TypeRef)
  deriving DecidableEq, Repr

namespace TypeExpr

/-- The declared type below every array and map layer. -/
def leaf : TypeExpr → Option TypeRef
  | builtIn _ => none
  | array e => e.leaf
  | mapOf v => v.leaf
  | named r => some r

/-- Applies `f` to the reference of a type, if it has one. -/
def mapRefs (f : TypeRef → TypeRef) : TypeExpr → TypeExpr
  | builtIn b => builtIn b
  | array e => array (e.mapRefs f)
  | mapOf v => mapOf (v.mapRefs f)
  | named r => named (f r)

/-- The form in which a type is written in a source. -/
def text : TypeExpr → String
  | builtIn b => b.text
  | array e => "[]" ++ e.text
  | mapOf v => "map[string]" ++ v.text
  | named r => r.name

/-- Whether a type is built in. -/
def isBuiltIn : TypeExpr → Bool
  | builtIn _ => true
  | _ => false

/-- Whether a type is an array. -/
def isArray : TypeExpr → Bool
  | array _ => true
  | _ => false

/-- Whether a type is a map. -/
def isMap : TypeExpr → Bool
  | mapOf _ => true
  | _ => false

/-- Whether a type is a reference, without any layer. -/
def isNamed : TypeExpr → Bool
  | named _ => true
  | _ => false

/-- The names of the declared types that a type refers to: one or none. -/
def names (t : TypeExpr) : List String :=
  (t.leaf.map (·.name)).toList

@[simp]
theorem leaf_mapRefs (f : TypeRef → TypeRef) (t : TypeExpr) :
    (t.mapRefs f).leaf = t.leaf.map f := by
  induction t with
  | builtIn => rfl
  | array e ih => exact ih
  | mapOf v ih => exact ih
  | named => rfl

end TypeExpr

end InterfaceLang
