import InterfaceLang.Validation
import Mathlib.Data.List.Dedup
import Mathlib.Data.List.Infix
import Mathlib.Data.List.ReduceOption

/-!
# What validation reports

The faults of a model are stated here without the table that validation builds. A declaration is
held against those before it, and a reference against the names of all declarations whose last
segment is an identifier. The table is built from fewer declarations, because a faulty one is not
entered. It yet gives the same answers: a repeated name has been entered already, by the first
declaration that has it, and a name whose last segment is no identifier is never looked up for a
declaration that could be entered.

Results:
* `register_violations`: registration finds the fault of each declaration against those before it.
* `checkReferences_eq`: the references at fault are the mentions whose names are not known.
* `length_entered`: registration enters every valid name once.
* `validate_reports`: all faults are reported, whatever others there are.
-/

namespace InterfaceLang

/-- The kinds of faults. -/
inductive Violation.Kind where
  | missingNamespace
  | invalidIdentifier
  | duplicateTypeName
  | unknownType
  | extendsUnknownType
  | circularReference
  deriving DecidableEq

/-- The kind of a fault. -/
def Violation.kind : Violation → Violation.Kind
  | missingNamespace .. => .missingNamespace
  | invalidIdentifier .. => .invalidIdentifier
  | duplicateTypeName .. => .duplicateTypeName
  | unknownType .. => .unknownType
  | extendsUnknownType .. => .extendsUnknownType
  | circularReference .. => .circularReference

/-- The fault in the name of a declaration that stands after others: it is no identifier, or else
the first of the others with this name is cited. -/
def Symbol.fault? (before : List Symbol) (s : Symbol) : Option Violation :=
  if s.isValid then
    (before.find? (·.name = s.name)).map fun first =>
      .duplicateTypeName s.name first.kind first.pos s.pos
  else some (.invalidIdentifier (Name.base s.name) s.pos)

/-- A place where a model mentions a name that has to be declared. -/
inductive Mention where
  /-- A type whose leaf is a reference. -/
  | type (ref : TypeRef)
  /-- The parent of a struct. -/
  | parent (child : Struct)

namespace Mention

/-- The name that is mentioned. -/
def name : Mention → String
  | type ref => ref.name
  | parent child => child.parent

/-- What is reported if the name is not declared. -/
def fault : Mention → Violation
  | type ref => .unknownType ref.name ref.pos
  | parent child => .extendsUnknownType child.name child.parent child.pos

/-- The reference, if a type mentions the name. -/
def ref? : Mention → Option TypeRef
  | type ref => some ref
  | parent _ => none

/-- The struct, if the name is mentioned as its parent. -/
def child? : Mention → Option Struct
  | type _ => none
  | parent child => some child

/-- The mentions in several types. -/
def inTypes (ts : List TypeExpr) : List Mention :=
  (ts.filterMap TypeExpr.leaf).map type

/-- The mentions in a struct, its parent first. -/
def inStruct (s : Struct) : List Mention :=
  (if s.parent = "" then [] else [parent s]) ++ inTypes (s.fields.map (·.type))

end Mention

namespace Model

/-- The faults in the names of declarations, each held against those before it. -/
def nameFaults (m : Model) : List Violation :=
  (List.zipWith Symbol.fault? m.symbols.inits m.symbols).reduceOption

/-- The names of all declarations whose last segment is an identifier. -/
def validNames (m : Model) : List String :=
  (m.symbols.filter (·.isValid)).map (·.name)

/-- All mentions in a model: those of its methods, then those of its structs. -/
def mentions (m : Model) : List Mention :=
  m.interfaces.flatMap (fun i => i.methods.flatMap fun f => Mention.inTypes f.types) ++
    m.structs.flatMap Mention.inStruct

/-- The faults of the mentions whose names are not declared. -/
def mentionFaults (m : Model) : List Violation :=
  (m.mentions.filter (·.name ∉ m.validNames)).map Mention.fault

end Model

namespace Validation

variable {m : Model} {table before symbols : List Symbol} {known : String → Bool}

/-! ## Declarations -/

/-- A declaration after others is not looked up if one of the others has its name, or if it is not
what is looked up. -/
theorem find?_concat {before : List Symbol} {s : Symbol} {name : String}
    (h : s.name = name → (before.find? (·.name = name)).isSome = true) :
    (before ++ [s]).find? (·.name = name) = before.find? (·.name = name) := by
  rw [List.find?_append]
  cases hfind : before.find? (·.name = name) with
  | some first => rfl
  | none =>
    rw [hfind] at h
    have hname : s.name ≠ name := fun heq => absurd (h heq) (by simp)
    simp [hname]

/-- The table answers for the declarations before, as far as valid names go. -/
def Answers (table before : List Symbol) : Prop :=
  ∀ s : Symbol, s.isValid = true →
    table.find? (·.name = s.name) = before.find? (·.name = s.name)

theorem Answers.concat {s : Symbol} (h : Answers table before) :
    Answers (table ++ [s]) (before ++ [s]) := by
  intro t ht
  rw [List.find?_append, List.find?_append, h t ht]

theorem Answers.of_found {s first : Symbol} (h : Answers table before)
    (hfirst : table.find? (·.name = s.name) = some first) : Answers table (before ++ [s]) := by
  intro t ht
  rw [h t ht, find?_concat]
  intro hname
  rw [← h t ht, ← hname, hfirst]
  rfl

theorem Answers.of_invalid {s : Symbol} (h : Answers table before) (hs : ¬s.isValid = true) :
    Answers table (before ++ [s]) := by
  intro t ht
  rw [h t ht, find?_concat]
  intro hname
  rw [Symbol.isValid, ← hname] at ht
  exact absurd ht hs

/-- Registration finds the fault of each declaration against those before it, although it does not
enter the declarations at fault. -/
theorem register_violations (h : Answers table before) :
    (register table symbols).violations =
      (List.zipWith (fun earlier s => s.fault? (before ++ earlier))
        symbols.inits symbols).reduceOption := by
  have hcons : ∀ (before : List Symbol) (s : Symbol) (rest : List Symbol),
      List.zipWith (fun earlier t => t.fault? (before ++ earlier)) (s :: rest).inits (s :: rest) =
        s.fault? before ::
          List.zipWith (fun earlier t => t.fault? (before ++ [s] ++ earlier)) rest.inits rest := by
    intro before s rest
    simp [List.zipWith_map_left]
  -- by and by `before` holds more declarations than the table, but none that is looked up
  induction symbols generalizing table before with
  | nil => rfl
  | cons s rest ih =>
    rw [hcons, register, Symbol.fault?]
    by_cases hvalid : s.isValid = true
    · rw [if_pos hvalid, if_pos hvalid, ← h s hvalid]
      cases hfirst : table.find? (·.name = s.name) with
      | some first =>
        rw [Option.map_some, List.reduceOption_cons_of_some, ← ih (h.of_found hfirst)]
      | none => rw [Option.map_none, List.reduceOption_cons_of_none, ← ih h.concat]
    · rw [if_neg hvalid, if_neg hvalid, List.reduceOption_cons_of_some,
        ← ih (h.of_invalid hvalid)]

theorem registration_violations (m : Model) : (registration m).violations = m.nameFaults := by
  have hstart : Answers [] [] := fun _ _ => rfl
  rw [registration, register_violations hstart]
  rfl

theorem mem_entered_registration (name : String) :
    name ∈ (registration m).entered.map (·.name) ↔ name ∈ m.validNames := by
  rw [registration, mem_entered_iff, Model.validNames]
  simp [and_assoc]

theorem knows_registration (name : String) :
    (registration m).knows name = decide (name ∈ m.validNames) := by
  rw [Bool.eq_iff_iff, decide_eq_true_iff, ← mem_entered_registration]
  simp [Registration.knows]

/-- Every valid name is entered, and none twice. -/
theorem length_entered (m : Model) :
    (registration m).entered.length = m.validNames.dedup.length := by
  have hperm : ((registration m).entered.map (·.name)).Perm m.validNames.dedup := by
    have hnodup : ((registration m).entered.map (·.name)).Nodup := nodup_entered _ _
    refine (List.perm_ext_iff_of_nodup hnodup (List.nodup_dedup _)).2 fun name => ?_
    rw [List.mem_dedup, mem_entered_registration]
  rw [← hperm.length_eq, List.length_map]

/-- A declaration with a valid name is entered, or its name is a duplicate. -/
theorem countP_register (table symbols : List Symbol) :
    (register table symbols).violations.countP (·.kind = .duplicateTypeName) +
      (register table symbols).entered.length = symbols.countP (·.isValid) := by
  fun_induction register table symbols with
  | case1 => rfl
  | case2 table s rest hvalid first hfirst r ih =>
    rw [List.countP_cons_of_pos rfl, List.countP_cons_of_pos hvalid, ← ih]
    exact Nat.add_right_comm _ _ _
  | case3 table s rest hvalid hnone r ih =>
    rw [List.length_cons, List.countP_cons_of_pos hvalid, ← ih]
    exact (Nat.add_assoc _ _ _).symm
  | case4 table s rest hinvalid r ih =>
    rw [List.countP_cons_of_neg (by simp [Violation.kind]), List.countP_cons_of_neg hinvalid, ← ih]

/-! ## References -/

/-- The faults of the mentions whose names are not known. -/
def unknown (known : String → Bool) (ms : List Mention) : List Violation :=
  (ms.filter fun x => !known x.name).map Mention.fault

theorem unknown_cons (x : Mention) (ms : List Mention) :
    unknown known (x :: ms) =
      if known x.name then unknown known ms else x.fault :: unknown known ms := by
  cases hx : known x.name <;> simp [unknown, hx]

theorem unknown_append (ms ms' : List Mention) :
    unknown known (ms ++ ms') = unknown known ms ++ unknown known ms' := by
  rw [unknown, List.filter_append, List.map_append]
  rfl

theorem unknown_flatMap {α : Type} (xs : List α) (f : α → List Mention) :
    unknown known (xs.flatMap f) = xs.flatMap fun x => unknown known (f x) := by
  induction xs with
  | nil => rfl
  | cons x xs ih => rw [List.flatMap_cons, List.flatMap_cons, unknown_append, ih]

theorem unknown_inTypes (ts : List TypeExpr) :
    unknown known (Mention.inTypes ts) = ts.flatMap (checkType known) := by
  induction ts with
  | nil => rfl
  | cons t ts ih =>
    rw [List.flatMap_cons, ← ih, checkType_eq_leaf, Mention.inTypes, List.filterMap_cons]
    cases t.leaf with
    | none => rfl
    | some r =>
      cases hr : known r.name <;> simp [unknown, Mention.inTypes, Mention.name, hr, Mention.fault]

theorem unknown_inStruct (s : Struct) :
    unknown known (Mention.inStruct s) = checkStruct known s := by
  rw [Mention.inStruct, unknown_append, unknown_inTypes, List.flatMap_map, checkStruct]
  congr 1
  unfold checkParent
  by_cases hempty : s.parent = ""
  · simp [hempty, unknown]
  · cases hs : known s.parent <;> simp [hempty, unknown, Mention.name, hs, Mention.fault]

theorem checkReferences_eq (known : String → Bool) (m : Model) :
    checkReferences known m = unknown known m.mentions := by
  rw [Model.mentions, unknown_append, unknown_flatMap, unknown_flatMap, checkReferences]
  simp only [unknown_flatMap, unknown_inTypes, unknown_inStruct]
  rfl

theorem checkReferences_knows (m : Model) :
    checkReferences (registration m).knows m = m.mentionFaults := by
  rw [checkReferences_eq, unknown, Model.mentionFaults]
  simp [knows_registration]

/-! ## Faults by kind -/

theorem filter_kind_eq_nil {k : Violation.Kind} {vs : List Violation} (h : ∀ v ∈ vs, v.kind ≠ k) :
    vs.filter (·.kind = k) = [] := by
  simpa using h

theorem kind_checkNamespace : ∀ v ∈ checkNamespace m, v.kind = .missingNamespace := by
  intro v hv
  unfold checkNamespace at hv
  split at hv
  · cases hv
  · rw [List.mem_singleton.1 hv]
    rfl

theorem kind_nameFaults :
    ∀ v ∈ m.nameFaults, v.kind = .invalidIdentifier ∨ v.kind = .duplicateTypeName := by
  intro v hv
  obtain ⟨i, _, hi⟩ := List.mem_iff_getElem.1 (List.reduceOption_mem_iff.1 hv)
  rw [List.getElem_zipWith] at hi
  unfold Symbol.fault? at hi
  split at hi
  · obtain ⟨first, _, rfl⟩ := Option.map_eq_some_iff.1 hi
    exact .inr rfl
  · cases hi
    exact .inl rfl

theorem kind_checkMembers : ∀ v ∈ checkMembers m, v.kind = .invalidIdentifier := by
  intro v hv
  obtain ⟨member, _, hmember⟩ := List.mem_filterMap.1 hv
  unfold checkMember at hmember
  split at hmember
  · cases hmember
  · cases hmember
    rfl

theorem kind_mentionFaults :
    ∀ v ∈ m.mentionFaults, v.kind = .unknownType ∨ v.kind = .extendsUnknownType := by
  intro v hv
  obtain ⟨x, _, rfl⟩ := List.mem_map.1 hv
  cases x with
  | type ref => exact .inl rfl
  | parent child => exact .inr rfl

theorem kind_checkCycles : ∀ v ∈ checkCycles m, v.kind = .circularReference := by
  intro v hv
  obtain ⟨e, _, rfl⟩ := List.mem_map.1 hv
  rfl

theorem filter_nameFaults {k : Violation.Kind} (hinvalid : k ≠ .invalidIdentifier)
    (hduplicate : k ≠ .duplicateTypeName) : m.nameFaults.filter (·.kind = k) = [] := by
  refine filter_kind_eq_nil fun v hv => ?_
  rcases kind_nameFaults v hv with hkind | hkind
  · exact hkind ▸ hinvalid.symm
  · exact hkind ▸ hduplicate.symm

theorem filter_checkMembers {k : Violation.Kind} (hinvalid : k ≠ .invalidIdentifier) :
    (checkMembers m).filter (·.kind = k) = [] :=
  filter_kind_eq_nil fun v hv => kind_checkMembers v hv ▸ hinvalid.symm

theorem filter_mentionFaults {k : Violation.Kind} (htype : k ≠ .unknownType)
    (hparent : k ≠ .extendsUnknownType) : m.mentionFaults.filter (·.kind = k) = [] := by
  refine filter_kind_eq_nil fun v hv => ?_
  rcases kind_mentionFaults v hv with hkind | hkind
  · exact hkind ▸ htype.symm
  · exact hkind ▸ hparent.symm

/-- The declarations whose names are no identifiers are at fault for that, all of them. -/
theorem filter_invalid_register (table symbols : List Symbol) :
    (register table symbols).violations.filter (·.kind = .invalidIdentifier) =
      (symbols.filter (!·.isValid)).map fun s => .invalidIdentifier (Name.base s.name) s.pos := by
  fun_induction register table symbols with
  | case1 => rfl
  | case2 table s rest hvalid first hfirst r ih =>
    rw [List.filter_cons_of_neg (by simp [Violation.kind]), ih,
      List.filter_cons_of_neg (by simp [hvalid])]
  | case3 table s rest hvalid hnone r ih =>
    rw [List.filter_cons_of_neg (by simp [hvalid])]
    exact ih
  | case4 table s rest hinvalid r ih =>
    rw [List.filter_cons_of_pos rfl, ih, List.filter_cons_of_pos (by simp [hinvalid])]
    rfl

theorem filter_unknownType (ms : List Mention) :
    (unknown known ms).filter (·.kind = .unknownType) =
      ((ms.filterMap Mention.ref?).filter fun r => !known r.name).map fun r =>
        .unknownType r.name r.pos := by
  induction ms with
  | nil => rfl
  | cons x ms ih =>
    rw [unknown_cons, List.filterMap_cons]
    cases x with
    | type ref =>
      cases href : known ref.name <;>
        simpa [Mention.name, href, Mention.fault, Mention.ref?, Violation.kind] using ih
    | parent child =>
      cases hchild : known child.parent <;>
        simpa [Mention.name, hchild, Mention.fault, Mention.ref?, Violation.kind] using ih

theorem filter_extendsUnknownType (ms : List Mention) :
    (unknown known ms).filter (·.kind = .extendsUnknownType) =
      ((ms.filterMap Mention.child?).filter fun s => !known s.parent).map fun s =>
        .extendsUnknownType s.name s.parent s.pos := by
  induction ms with
  | nil => rfl
  | cons x ms ih =>
    rw [unknown_cons, List.filterMap_cons]
    cases x with
    | type ref =>
      cases href : known ref.name <;>
        simpa [Mention.name, href, Mention.fault, Mention.child?, Violation.kind] using ih
    | parent child =>
      cases hchild : known child.parent <;>
        simpa [Mention.name, hchild, Mention.fault, Mention.child?, Violation.kind] using ih

theorem filterMap_ref?_mentions (m : Model) : m.mentions.filterMap Mention.ref? = m.references := by
  have htypes : ∀ ts : List TypeExpr,
      (Mention.inTypes ts).filterMap Mention.ref? = ts.filterMap TypeExpr.leaf := by
    intro ts
    rw [Mention.inTypes, List.filterMap_map]
    exact List.filterMap_some
  have hstruct : ∀ s : Struct, (Mention.inStruct s).filterMap Mention.ref? =
      (s.fields.map (·.type)).filterMap TypeExpr.leaf := by
    intro s
    rw [Mention.inStruct, List.filterMap_append, htypes]
    split <;> rfl
  simp only [Model.mentions, Model.references, Model.types, List.filterMap_append,
    List.filterMap_flatMap, htypes, hstruct]

theorem filterMap_child?_mentions (m : Model) :
    m.mentions.filterMap Mention.child? = m.structs.filter (·.parent ≠ "") := by
  have htypes : ∀ ts : List TypeExpr, (Mention.inTypes ts).filterMap Mention.child? = [] := by
    intro ts
    simp [Mention.inTypes, Mention.child?, List.filterMap_map, Function.comp_def]
  have hstruct : ∀ s : Struct,
      (Mention.inStruct s).filterMap Mention.child? = [s].filter (·.parent ≠ "") := by
    intro s
    rw [Mention.inStruct, List.filterMap_append, htypes, List.append_nil]
    by_cases hempty : s.parent = "" <;> simp [hempty, Mention.child?]
  simp only [Model.mentions, List.filterMap_append, List.filterMap_flatMap, htypes, hstruct]
  simp [← List.filter_flatMap]

theorem mentionFaults_eq (m : Model) :
    m.mentionFaults = unknown (fun name => decide (name ∈ m.validNames)) m.mentions := by
  simp [unknown, Model.mentionFaults]

end Validation

open Validation

/-- What a list of faults says about a model. -/
structure Model.Report (m : Model) (vs : List Violation) : Prop where
  /-- The faults come in this order: the namespace, the names of declarations, the names of members,
  the names that are mentioned, the cycles. -/
  passes : vs = checkNamespace m ++ m.nameFaults ++ checkMembers m ++ m.mentionFaults ++
    checkCycles m
  /-- No other name is reported as malformed than those of declarations and members, and none is
  left out. -/
  identifiers : vs.filter (·.kind = .invalidIdentifier) =
    (m.symbols.filter (!·.isValid)).map (fun s => .invalidIdentifier (Name.base s.name) s.pos) ++
      checkMembers m
  duplicates : vs.filter (·.kind = .duplicateTypeName) =
    m.nameFaults.filter (·.kind = .duplicateTypeName)
  /-- Of the declarations with valid names one for each name is no duplicate. -/
  count : vs.countP (·.kind = .duplicateTypeName) + m.validNames.dedup.length =
    m.validNames.length
  /-- All references that are not declared, each for itself. -/
  types : vs.filter (·.kind = .unknownType) =
    (m.references.filter (·.name ∉ m.validNames)).map fun r => .unknownType r.name r.pos
  /-- All structs with parents that are not declared, each for itself. -/
  parents : vs.filter (·.kind = .extendsUnknownType) =
    (m.structs.filter fun s => s.parent ≠ "" ∧ s.parent ∉ m.validNames).map fun s =>
      .extendsUnknownType s.name s.parent s.pos

/-- Faults of a kind that neither the namespace nor a cycle gives come from the passes between. -/
theorem filter_kind_violations (m : Model) {k : Violation.Kind} (hnamespace : k ≠ .missingNamespace)
    (hcycle : k ≠ .circularReference) :
    (violations m).filter (·.kind = k) = m.nameFaults.filter (·.kind = k) ++
      (checkMembers m).filter (·.kind = k) ++ m.mentionFaults.filter (·.kind = k) := by
  have hfirst : (checkNamespace m).filter (·.kind = k) = [] :=
    filter_kind_eq_nil fun v hv => kind_checkNamespace v hv ▸ hnamespace.symm
  have hlast : (checkCycles m).filter (·.kind = k) = [] :=
    filter_kind_eq_nil fun v hv => kind_checkCycles v hv ▸ hcycle.symm
  rw [violations, registration_violations, checkReferences_knows]
  simp only [List.filter_append, hfirst, hlast, List.nil_append, List.append_nil]

theorem filter_duplicates (m : Model) :
    (violations m).filter (·.kind = .duplicateTypeName) =
      m.nameFaults.filter (·.kind = .duplicateTypeName) := by
  rw [filter_kind_violations m (by decide) (by decide), filter_checkMembers (by decide),
    filter_mentionFaults (by decide) (by decide), List.append_nil, List.append_nil]

theorem report_violations (m : Model) : m.Report (violations m) where
  passes := by rw [violations, registration_violations, checkReferences_knows]
  identifiers := by
    have hnames : m.nameFaults.filter (·.kind = .invalidIdentifier) =
        (m.symbols.filter (!·.isValid)).map fun s =>
          .invalidIdentifier (Name.base s.name) s.pos := by
      rw [← registration_violations, registration, filter_invalid_register]
    have hmembers : (checkMembers m).filter (·.kind = .invalidIdentifier) = checkMembers m :=
      List.filter_eq_self.2 fun v hv => decide_eq_true (kind_checkMembers v hv)
    rw [filter_kind_violations m (by decide) (by decide), hnames, hmembers,
      filter_mentionFaults (by decide) (by decide), List.append_nil]
  duplicates := filter_duplicates m
  count := by
    have hcount := countP_register [] m.symbols
    rw [← registration, registration_violations, length_entered] at hcount
    rw [List.countP_eq_length_filter, filter_duplicates, ← List.countP_eq_length_filter, hcount,
      Model.validNames, List.length_map, List.countP_eq_length_filter]
  types := by
    rw [filter_kind_violations m (by decide) (by decide),
      filter_nameFaults (by decide) (by decide), filter_checkMembers (by decide), mentionFaults_eq,
      filter_unknownType, filterMap_ref?_mentions]
    simp
  parents := by
    rw [filter_kind_violations m (by decide) (by decide),
      filter_nameFaults (by decide) (by decide), filter_checkMembers (by decide), mentionFaults_eq,
      filter_extendsUnknownType, filterMap_child?_mentions, List.filter_filter]
    simp [Bool.and_comm]

/-- Validation reports every fault, whatever others there are: each declaration with a malformed
name, each repetition of a name with its first declaration, each reference and each parent that is
the name of no declaration with a valid name, in the order in which they stand. It succeeds if there
is none. -/
theorem validate_reports (m : Model) :
    ∃ vs, m.Report vs ∧ validate m = if vs = [] then .ok () else .error (.invalid vs) := by
  refine ⟨violations m, report_violations m, ?_⟩
  unfold validate
  split
  · next hnil => rw [if_pos hnil]
  · next hne => rw [if_neg hne]

end InterfaceLang
