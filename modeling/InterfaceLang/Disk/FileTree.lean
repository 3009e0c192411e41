import InterfaceLang.Disk

/-!
# File trees

A finite tree of files and directories, given as a list of absolute locations. A location that lies
on the way to a listed one is a directory. Opening a path walks through its components: each step
needs a directory to start from, and a name that is not too long and exists there. From a working
directory that has been removed, the one step left is the way up.

Results:
* `walk_names`: walking along names only appends them to the location.
* `mem_readable`: a path in normal form that can be read shows the end of a listed location.
-/

namespace InterfaceLang

/-- What is at a location. -/
inductive Entry where
  | file (bytes : ByteArray)
  | directory

/-- Whether an entry is a directory. -/
def Entry.isDirectory : Entry → Bool
  | directory => true
  | file _ => false

/-- Where relative paths start: at a directory of the tree, or at one that has been removed from
its parent directory. -/
inductive WorkingDir where
  | present (loc : List String)
  | removed (parent : List String)

/-- Files and directories by location, and a working directory. -/
structure FileTree where
  entries : List (List String × Entry)
  workingDir : WorkingDir

namespace FileTree

/-- The longest name of a file or directory, in bytes. -/
def maxName : Nat :=
  255

/-- The longest path that can be opened, in bytes. -/
def maxPath : Nat :=
  4095

/-- What is at a location, if anything is. -/
def find? (t : FileTree) (loc : List String) : Option Entry :=
  match t.entries.find? (·.1 = loc) with
  | some e => some e.2
  | none => if loc = [] ∨ t.entries.any (loc.isPrefixOf ·.1) then some .directory else none

/-- The location that a path leads to from `loc`. -/
def walk (t : FileTree) (loc : List String) : List Component → Except ReadFailure (List String)
  | [] => .ok loc
  | c :: cs =>
    if (t.find? loc).any (·.isDirectory) then
      match c with
      | .root => t.walk [] cs
      | .here => t.walk loc cs
      | .up => t.walk loc.dropLast cs
      | .name s =>
        if maxName < s.utf8ByteSize then .error .nameTooLong
        else if (t.find? (loc ++ [s])).isSome then t.walk (loc ++ [s]) cs
        else .error .notFound
    else .error .notDirectory

/-- The location that a path leads to from a directory removed from `parent`: no name is found
there, the way up still leads to the parent, and the directory itself is a location of no file. -/
def walkRemoved (t : FileTree) (parent : List String) :
    List Component → Except ReadFailure (List String)
  | [] => .error .isDirectory
  | .root :: cs => t.walk [] cs
  | .here :: cs => t.walkRemoved parent cs
  | .up :: cs => t.walk parent cs
  | .name _ :: _ => .error .notFound

/-- The location that a path leads to. -/
def locate (t : FileTree) (p : Path) : Except ReadFailure (List String) :=
  if p.isAbsolute then t.walk [] p.components
  else
    match t.workingDir with
    | .present loc => t.walk loc p.components
    | .removed parent => t.walkRemoved parent p.components

/-- The text at a location. -/
def textAt (t : FileTree) (loc : List String) : Except ReadFailure String :=
  match t.find? loc with
  | some (.file bytes) =>
    match String.fromUTF8? bytes with
    | some text => .ok text
    | none => .error .notUtf8
  | some .directory => .error .isDirectory
  | none => .error .notFound

/-- The text of the file at a path. -/
def read (t : FileTree) (p : Path) : Except ReadFailure String :=
  if '\x00' ∈ p.text.toList then .error .nulInName
  else if p.text = "" then .error .notFound
  else if maxPath < p.text.utf8ByteSize then .error .nameTooLong
  else
    match t.locate p with
    | .error e => .error e
    | .ok loc => t.textAt loc

/-- The components in normal form that may lead to a location. -/
def waysTo (loc : List String) : List (List Component) :=
  (List.range (loc.length + 1)).flatMap fun k =>
    Path.leads.map fun lead => lead ++ (loc.drop k).map .name

/-- The components in normal form that may lead to a listed location. -/
def readable (t : FileTree) : List (List Component) :=
  t.entries.flatMap fun e => waysTo e.1

/-! ## What can be read is listed -/

theorem mem_waysTo {lead : List Component} (hlead : lead ∈ Path.leads) (base names : List String) :
    lead ++ names.map .name ∈ waysTo (base ++ names) := by
  simp only [waysTo, List.mem_flatMap, List.mem_range, List.mem_map, List.length_append]
  exact ⟨base.length, by omega, lead, hlead, by simp⟩

theorem walk_cons {t : FileTree} {loc result : List String} {c : Component} {cs : List Component}
    (h : t.walk loc (c :: cs) = .ok result) :
    ∃ next, t.walk next cs = .ok result ∧ ∀ s, c = .name s → next = loc ++ [s] := by
  unfold walk at h
  split at h
  · cases c with
    | root => exact ⟨[], h, by simp⟩
    | here => exact ⟨loc, h, by simp⟩
    | up => exact ⟨loc.dropLast, h, by simp⟩
    | name s =>
      simp only at h
      split at h
      · cases h
      · split at h
        · exact ⟨loc ++ [s], h, by simp⟩
        · cases h
  · cases h

theorem walk_names {t : FileTree} {loc result : List String} {names : List String}
    (h : t.walk loc (names.map .name) = .ok result) : result = loc ++ names := by
  induction names generalizing loc with
  | nil =>
    cases h
    simp
  | cons s names ih =>
    obtain ⟨next, hnext, hname⟩ := walk_cons h
    rw [ih hnext, hname s rfl]
    simp

theorem walk_lead_names {t : FileTree} {loc result : List String} {lead : List Component}
    {names : List String} (h : t.walk loc (lead ++ names.map .name) = .ok result) :
    ∃ base, result = base ++ names := by
  induction lead generalizing loc with
  | nil => exact ⟨loc, walk_names h⟩
  | cons c lead ih =>
    obtain ⟨next, hnext, _⟩ := walk_cons h
    exact ih hnext

theorem walkRemoved_lead_names {t : FileTree} {parent result : List String}
    {lead : List Component} {names : List String}
    (h : t.walkRemoved parent (lead ++ names.map .name) = .ok result) :
    ∃ base, result = base ++ names := by
  induction lead with
  | nil => cases names <;> cases h
  | cons c lead ih =>
    cases c with
    | root => exact walk_lead_names h
    | here => exact ih h
    | up => exact walk_lead_names h
    | name s => cases h

theorem locate_lead_names {t : FileTree} {p : Path} {result : List String}
    {lead : List Component} {names : List String} (hp : p.components = lead ++ names.map .name)
    (h : t.locate p = .ok result) : ∃ base, result = base ++ names := by
  unfold locate at h
  rw [hp] at h
  split at h
  · exact walk_lead_names h
  · split at h
    · exact walk_lead_names h
    · exact walkRemoved_lead_names h

theorem mem_entries_of_textAt {t : FileTree} {loc : List String} {text : String}
    (h : t.textAt loc = .ok text) : ∃ e ∈ t.entries, e.1 = loc := by
  unfold textAt at h
  split at h
  · next bytes hfind =>
    unfold find? at hfind
    split at hfind
    · next e he => exact ⟨e, List.mem_of_find?_eq_some he, by simpa using List.find?_some he⟩
    · split at hfind <;> cases hfind
  · cases h
  · cases h

theorem locate_of_read {t : FileTree} {p : Path} {text : String} (h : t.read p = .ok text) :
    ∃ loc, t.locate p = .ok loc ∧ t.textAt loc = .ok text := by
  unfold read at h
  split at h
  · cases h
  split at h
  · cases h
  split at h
  · cases h
  split at h
  · cases h
  · next loc hloc => exact ⟨loc, hloc, h⟩

theorem mem_readable (t : FileTree) (p : Path) (text : String)
    (h : t.read p.normalize = .ok text) : p.normalize.components ∈ t.readable := by
  obtain ⟨loc, hloc, htext⟩ := locate_of_read h
  obtain ⟨lead, hlead, names, hcomp⟩ := Path.isNormal_normalize p
  obtain ⟨base, rfl⟩ := locate_lead_names hcomp hloc
  rw [hcomp]
  obtain ⟨e, he, heq⟩ := mem_entries_of_textAt htext
  exact List.mem_flatMap.2 ⟨e, he, heq ▸ mem_waysTo hlead base names⟩

/-- The disk that a file tree is. -/
def toDisk (t : FileTree) : Disk where
  read := t.read
  workingDir :=
    match t.workingDir with
    | .present loc => .ok (.ofComponents (.root :: loc.map .name))
    | .removed _ => .error .notFound
  readable := t.readable
  mem_readable := t.mem_readable

end FileTree

end InterfaceLang
