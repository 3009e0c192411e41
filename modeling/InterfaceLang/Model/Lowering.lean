import InterfaceLang.Comment
import InterfaceLang.Diagnostic.ImportError
import InterfaceLang.Model
import InterfaceLang.Tree

/-!
# From a file to its model

Lowering gives the declarations of a file the file's namespace and their comments. A declaration
takes the comment above its keyword; a member takes the one above its name, but nothing at or above
the line of the opening brace, so that it never repeats the comment of the declaration.
-/

namespace InterfaceLang

namespace SourceFile

/-- The namespace declaration of a file, of which there is at most one. -/
def namespaceDecl? (f : SourceFile) (source : String) :
    Except ImportError (Option NamespaceDecl) :=
  match f.namespaces with
  | [] => .ok none
  | [d] => .ok (some d)
  | _ :: d :: _ => .error (.multipleNamespaces f.file ⟨⟨f.file, source⟩, d.name.span, d.pos⟩)

end SourceFile

namespace Model

/-- The lines of a source text, from which comments are taken. -/
abbrev Lines := List (List Char)

/-- The parameter that a declaration describes. -/
def ofParam (p : ParamDecl) : Parameter :=
  ⟨p.name.name, p.type, p.name.pos⟩

/-- The method that a declaration describes, in a body whose brace is on line `floor`. -/
def ofMethod (lines : Lines) (floor : Nat) (m : MethodDecl) : Method where
  name := m.name.name
  parameters := m.params.map ofParam
  returns := some m.returns
  returnOptional := m.optional
  comment := Comment.above lines floor m.name.pos.line
  pos := m.name.pos

/-- The interface that a declaration describes. -/
def ofInterface (lines : Lines) (ns : String) (d : InterfaceDecl) : Interface where
  name := d.name.name
  ns := ns
  methods := d.methods.map (ofMethod lines d.bodyLine)
  comment := Comment.above lines 0 d.pos.line
  pos := d.pos

/-- The field that a declaration describes, in a body whose brace is on line `floor`. -/
def ofField (lines : Lines) (floor : Nat) (f : FieldDecl) : Field where
  name := f.name.name
  type := f.type
  optional := f.optional
  comment := Comment.above lines floor f.name.pos.line
  pos := f.name.pos

/-- The struct that a declaration describes. -/
def ofStruct (lines : Lines) (ns : String) (d : StructDecl) : Struct where
  name := d.name.name
  ns := ns
  parent := (d.parent.map (·.name)).getD ""
  fields := d.fields.map (ofField lines d.bodyLine)
  comment := Comment.above lines 0 d.pos.line
  pos := d.pos

/-- The enum value of the given name, in a body whose brace is on line `floor`. -/
def ofEnumValue (lines : Lines) (floor : Nat) (v : Ident) : EnumValue :=
  ⟨v.name, Comment.above lines floor v.pos.line, v.pos⟩

/-- The enum that a declaration describes. -/
def ofEnum (lines : Lines) (ns : String) (d : EnumDecl) : Enum where
  name := d.name.name
  ns := ns
  values := d.values.map (ofEnumValue lines d.bodyLine)
  comment := Comment.above lines 0 d.pos.line
  pos := d.pos

end Model

/-- The interface that an element declares, if it does. -/
def Element.interface? : Element → Option InterfaceDecl
  | interfaceDecl d => some d
  | _ => none

/-- The struct that an element declares, if it does. -/
def Element.struct? : Element → Option StructDecl
  | structDecl d => some d
  | _ => none

/-- The enum that an element declares, if it does. -/
def Element.enum? : Element → Option EnumDecl
  | enumDecl d => some d
  | _ => none

/-- The model of the declarations of a file; its imports are not followed. -/
def SourceFile.toModel (f : SourceFile) (source : String) : Except ImportError Model := do
  let decl ← f.namespaceDecl? source
  let ns := (decl.map (·.name.name)).getD ""
  let lines := Text.lines source.toList
  pure {
    file := f.file
    rootNs := ns
    interfaces := (f.elements.filterMap Element.interface?).map (Model.ofInterface lines ns)
    structs := (f.elements.filterMap Element.struct?).map (Model.ofStruct lines ns)
    enums := (f.elements.filterMap Element.enum?).map (Model.ofEnum lines ns) }

end InterfaceLang
