/-!
# Documents

The value in which a model is handed on: null, truth values, numbers, texts, lists, and objects
whose entries keep their order.
-/

namespace InterfaceLang

/-- A value of the kinds that JSON and YAML share. -/
inductive Document where
  | null
  | bool (b : Bool)
  | number (n : Nat)
  | string (s : String)
  | array (items : List Document)
  | object (entries : List (String × Document))

end InterfaceLang
