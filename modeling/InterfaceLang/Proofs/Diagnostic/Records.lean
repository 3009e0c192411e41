import InterfaceLang.Analysis
import InterfaceLang.Proofs.Imports.Labels
import InterfaceLang.Proofs.Imports.Mentions
import InterfaceLang.Proofs.Validation.Reports
import InterfaceLang.Proofs.Validation.Rings

/-!
# Records of failed analyses

A record leaves out the position that a message begins with. The messages of syntax and import
errors begin with theirs. The message of a fault does not name its position, but a file can have any
name, so that the words with which a message begins may be those of a position in some file.

Colons tell the two apart. The position that leads a message has three of them besides those in the
name of the file. A fault quotes names of the model, which consist of word characters and dots, and
no wording of a fault has more than two colons of its own.

Results:
* `Validation.shows_of_quoted`: the names that a fault quotes stand in the model, whole or as last
  segments.
* `three_le_colons_lead`, `colons_message_le`: the colons of a leading position and of a message.
* `analyze_records`: records lose nothing of the failure of an analysis.
-/

namespace InterfaceLang

/-! ## Names that faults quote -/

/-- The names that the message of a fault quotes. -/
def Violation.quoted : Violation → List String
  | missingNamespace _ => []
  | invalidIdentifier name _ | duplicateTypeName name _ _ _ | unknownType name _ => [name]
  | extendsUnknownType name parent _ => [name, parent]
  | circularReference cycle _ => cycle

/-- A name stands in a model, whole or as the last segment of a name. -/
def Model.Shows (m : Model) (name : String) : Prop :=
  ∃ whole ∈ m.names, name = whole ∨ name = Name.base whole

namespace Validation

variable {m : Model} {v : Violation}

theorem shows_of_mem_names {name : String} (h : name ∈ m.names) : m.Shows name :=
  ⟨name, h, .inl rfl⟩

theorem mem_names_of_symbol {s : Symbol} (h : s ∈ m.symbols) : s.name ∈ m.names := by
  have hname := (names_symbols_perm m).mem_iff.1 (List.mem_map_of_mem h)
  simp only [Model.names, List.append_assoc]
  exact List.mem_append_left _ hname

theorem mem_names_of_struct {s : Struct} (h : s ∈ m.structs) : s.name ∈ m.names :=
  mem_names_of_symbol (s := ⟨.struct, s.name, s.pos⟩) (by
    simp only [Model.symbols, List.mem_append, List.mem_map]
    exact .inl (.inr ⟨s, h, rfl⟩))

theorem shows_nameFaults (h : v ∈ m.nameFaults) : ∀ name ∈ v.quoted, m.Shows name := by
  obtain ⟨i, hi, hfault⟩ := List.mem_iff_getElem.1 (List.reduceOption_mem_iff.1 h)
  rw [List.getElem_zipWith] at hfault
  have hsymbol := mem_names_of_symbol (List.getElem_mem (List.lt_length_right_of_zipWith hi))
  unfold Symbol.fault? at hfault
  split at hfault
  · obtain ⟨first, _, rfl⟩ := Option.map_eq_some_iff.1 hfault
    exact List.forall_mem_singleton.2 ⟨_, hsymbol, .inl rfl⟩
  · cases hfault
    exact List.forall_mem_singleton.2 ⟨_, hsymbol, .inr rfl⟩

theorem shows_checkMembers (h : v ∈ checkMembers m) : ∀ name ∈ v.quoted, m.Shows name := by
  obtain ⟨member, hmember, hfault⟩ := List.mem_filterMap.1 h
  unfold checkMember at hfault
  split at hfault
  · cases hfault
  · cases hfault
    refine List.forall_mem_singleton.2 (shows_of_mem_names ?_)
    simp only [Model.names, List.mem_append]
    exact .inl (.inl (.inr (List.mem_map_of_mem hmember)))

theorem shows_mentionFaults (h : v ∈ m.mentionFaults) : ∀ name ∈ v.quoted, m.Shows name := by
  obtain ⟨x, hx, rfl⟩ := List.mem_map.1 h
  have hmention := (List.mem_filter.1 hx).1
  cases x with
  | type ref =>
    have href : ref ∈ m.references := by
      rw [← filterMap_ref?_mentions]
      exact List.mem_filterMap.2 ⟨_, hmention, rfl⟩
    refine List.forall_mem_singleton.2 (shows_of_mem_names ?_)
    simp only [Model.names, List.mem_append]
    exact .inl (.inr (List.mem_map_of_mem href))
  | parent child =>
    have hchild : child ∈ m.structs := by
      have hmem : child ∈ m.mentions.filterMap Mention.child? :=
        List.mem_filterMap.2 ⟨_, hmention, rfl⟩
      rw [filterMap_child?_mentions] at hmem
      exact (List.mem_filter.1 hmem).1
    refine List.forall_mem_cons.2 ⟨shows_of_mem_names (mem_names_of_struct hchild),
      List.forall_mem_singleton.2 (shows_of_mem_names ?_)⟩
    simp only [Model.names, List.mem_append]
    exact .inr (List.mem_map_of_mem hchild)

theorem shows_checkCycles (h : v ∈ checkCycles m) : ∀ name ∈ v.quoted, m.Shows name := by
  obtain ⟨e, he, rfl⟩ := List.mem_map.1 h
  obtain ⟨rest, _, hring, hcycle, _, _⟩ := backEdge_ringed m e he
  intro name hname
  have hstruct : name ∈ structNames m := by
    simp only [BackEdge.violation, Violation.quoted, hcycle, List.mem_append,
      List.mem_singleton] at hname
    rcases hname with hname | rfl
    · exact hring.structs name hname
    · exact hring.structs _ List.mem_cons_self
  obtain ⟨s, hs, rfl⟩ := List.mem_map.1 hstruct
  exact shows_of_mem_names (mem_names_of_struct hs)

/-- Faults quote names that stand in the model. -/
theorem shows_of_quoted (h : v ∈ violations m) : ∀ name ∈ v.quoted, m.Shows name := by
  rw [(report_violations m).passes] at h
  simp only [List.mem_append] at h
  rcases h with (((h | h) | h) | h) | h
  · unfold checkNamespace at h
    split at h
    · cases h
    · cases List.mem_singleton.1 h
      simp [Violation.quoted]
  · exact shows_nameFaults h
  · exact shows_checkMembers h
  · exact shows_mentionFaults h
  · exact shows_checkCycles h

end Validation

/-! ## Colons -/

/-- The number of colons in a text. -/
def colons (text : String) : Nat :=
  text.toList.count ':'

section Colons

variable {name : String}

theorem colons_append (s t : String) : colons (s ++ t) = colons s + colons t := by
  rw [colons, String.toList_append, List.count_append]
  rfl

theorem colons_toString (n : Nat) : colons (toString n) = 0 := by
  rw [colons, List.count_eq_zero, Nat.toString_eq_repr, Nat.toList_repr]
  intro hmem
  have hdigit : Char.isDigit ':' = true :=
    Nat.isDigit_of_mem_toDigits (b := 10) (by decide) (by decide) hmem
  exact absurd hdigit (by decide)

theorem colons_of_dotted (h : Name.Dotted name) : colons name = 0 := by
  rw [colons, List.count_eq_zero]
  intro hmem
  rcases h _ hmem with hword | hdot
  · exact absurd hword (by decide)
  · exact absurd hdot (by decide)

theorem colons_cycleText {cycle : List String} (h : ∀ name ∈ cycle, colons name = 0) :
    colons (cycleText cycle) = 0 := by
  unfold cycleText
  induction cycle with
  | nil => rfl
  | cons first rest ih =>
    obtain ⟨hfirst, hrest⟩ := List.forall_mem_cons.1 h
    cases rest with
    | nil => simpa using hfirst
    | cons next rest =>
      rw [String.intercalate_cons_cons, colons_append, colons_append, hfirst, ih hrest]
      decide

/-- The position that leads a message has three colons besides those in the name of the file. -/
theorem three_le_colons_lead (pos : Position) : 3 ≤ colons (Record.lead pos) := by
  have hlead : Record.lead pos =
      pos.file ++ ":" ++ toString pos.line ++ ":" ++ toString pos.column ++ ": " := rfl
  have hsep : colons ":" = 1 ∧ colons ": " = 1 := by decide
  simp only [hlead, colons_append, colons_toString, hsep]
  omega

/-- No wording of a fault has more than two colons, those in the names that it quotes apart. -/
theorem colons_message_le {v : Violation} (h : ∀ name ∈ v.quoted, colons name = 0) :
    colons v.message ≤ 2 := by
  unfold Violation.message
  cases v with
  | missingNamespace =>
    dsimp only
    decide +kernel
  | invalidIdentifier name =>
    have hname : colons (toString name) = 0 := h name List.mem_cons_self
    simp only [colons_append, hname]
    decide +kernel
  | duplicateTypeName name kind =>
    have hname : colons (toString name) = 0 := h name List.mem_cons_self
    have hkind : colons (toString kind.text) = 0 := by cases kind <;> decide
    simp only [colons_append, hname, hkind, colons_toString]
    decide +kernel
  | unknownType name =>
    have hname : colons (toString name) = 0 := h name List.mem_cons_self
    simp only [colons_append, hname]
    decide +kernel
  | extendsUnknownType name parent =>
    have hname : colons (toString name) = 0 := h name List.mem_cons_self
    have hparent : colons (toString parent) = 0 :=
      h parent (List.mem_cons_of_mem _ List.mem_cons_self)
    simp only [colons_append, hname, hparent]
    decide +kernel
  | circularReference cycle =>
    have hcycle : colons (toString (cycleText cycle)) = 0 := colons_cycleText h
    simp only [colons_append, hcycle]
    decide +kernel

/-- A text with few colons does not begin with the position of anything, in whatever file. -/
theorem not_lead_prefix {text : String} (h : colons text ≤ 2) (pos : Position) :
    ¬(Record.lead pos).toList <+: text.toList := by
  intro hprefix
  have hcount : colons (Record.lead pos) ≤ colons text := hprefix.sublist.count_le ':'
  have hlead := three_le_colons_lead pos
  omega

end Colons

/-! ## Records -/

namespace Record

variable {start text : String}

theorem stripStart_eq_self (h : ¬start.toList <+: text.toList) : stripStart start text = text := by
  rw [stripStart, if_neg]
  simpa using h

theorem ofPosition_eq {pos : Position} (h : ¬(lead pos).toList <+: text.toList) :
    ofPosition pos text = ⟨pos.file, pos.line, pos.column, text⟩ := by
  rw [ofPosition, stripStart_eq_self h]

end Record

namespace Failure

/-- A failure gives one record, at the position, and its message is that of the record after the
position. -/
def RecordedAt (f : Failure) (pos : Position) : Prop :=
  ∃ detail, f.records = [⟨pos.file, pos.line, pos.column, detail⟩] ∧
    f.message = pos.file ++ ":" ++ toString pos.line ++ ":" ++ toString pos.column ++ ": " ++ detail

theorem recordedAt_ofSyntax (e : SyntaxError) : (ofSyntax e).RecordedAt e.pos :=
  ⟨e.detail, records_ofSyntax e, rfl⟩

theorem recordedAt_ofImport (e : ImportError) : (ofImport e).RecordedAt e.pos :=
  ⟨e.detail, records_ofImport e, rfl⟩

end Failure

/-! ## Analyses -/

section Analysis

variable {disk : Disk} {name text : String} {f : Failure} {m : Model} {v : Violation}

/-- The names in a resolved model have word characters and dots only. -/
theorem dotted_names_of_resolveSource (h : (resolveSource disk none name text).result = .ok m) :
    ∀ name ∈ m.names, Name.Dotted name := by
  obtain ⟨_, _, _, _, hcollects⟩ := Imports.collects_of_resolve h
  exact hcollects.wellNamed.dotted_names hcollects.dotted

theorem colons_of_quoted (h : (resolveSource disk none name text).result = .ok m)
    (hv : v ∈ Validation.violations m) : ∀ name ∈ v.quoted, colons name = 0 := by
  intro name hname
  obtain ⟨whole, hwhole, rfl | rfl⟩ := Validation.shows_of_quoted hv name hname
  · exact colons_of_dotted (dotted_names_of_resolveSource h _ hwhole)
  · exact colons_of_dotted fun c hc =>
      dotted_names_of_resolveSource h _ hwhole c (Name.mem_of_mem_base hc)

theorem not_lead_prefix_message (h : (resolveSource disk none name text).result = .ok m)
    (hv : v ∈ Validation.violations m) (pos : Position) :
    ¬(Record.lead pos).toList <+: v.message.toList :=
  not_lead_prefix (colons_message_le (colons_of_quoted h hv)) pos

/-- An analysis fails because resolving does, with an error at one position, or because the model
that was resolved has faults. -/
theorem analyze_error_cases (h : (analyze disk name text).result = .error f) :
    (∃ e, f = .ofSyntax e) ∨ (∃ e, f = .ofImport e) ∨
      ∃ m, (resolveSource disk none name text).result = .ok m ∧ Validation.violations m ≠ [] ∧
        f = .invalid (Validation.violations m) := by
  unfold analyze Outcome.validated at h
  split at h
  · next f' hresolve =>
    rw [hresolve] at h
    cases h
    cases f with
    | ofSyntax e => exact .inl ⟨e, rfl⟩
    | ofImport e => exact .inr (.inl ⟨e, rfl⟩)
    | invalid vs =>
      rcases Imports.labelled_of_resolve hresolve with hroot | ⟨_, _, hlabelled⟩
      · cases hroot
      · cases hlabelled
  · next m hresolve =>
    refine .inr (.inr ⟨m, hresolve, ?_⟩)
    unfold validate at h
    split at h
    · cases h
    · next hne =>
      cases h
      exact ⟨hne, rfl⟩

theorem analyze_of_violations (h : (resolveSource disk none name text).result = .ok m)
    (hne : Validation.violations m ≠ []) :
    (analyze disk name text).result = .error (.invalid (Validation.violations m)) := by
  obtain ⟨v, hv⟩ := List.exists_mem_of_ne_nil _ hne
  unfold analyze Outcome.validated
  split
  · next hresolve =>
    rw [h] at hresolve
    cases hresolve
  · next m' hresolve =>
    cases h.symm.trans hresolve
    rw [Validation.validate_eq_error hv]
    rfl

/-- The records of an analysis that fails lose nothing. A syntax or import error gives one record,
at its position, and the message of the error is that of the record after the position. Faults of a
model, of which there is one at least, give one record each, in their order, with the position and
the whole message of the fault: whatever a file may be called, no position in it is taken off. -/
theorem analyze_records (h : (analyze disk name text).result = .error f) :
    (∃ e, f = .ofSyntax e ∧ f.RecordedAt e.pos) ∨
      (∃ e, f = .ofImport e ∧ f.RecordedAt e.pos) ∨
      ∃ m, (resolveSource disk none name text).result = .ok m ∧
        f = .invalid (Validation.violations m) ∧ Validation.violations m ≠ [] ∧
        f.records = (Validation.violations m).map (fun v =>
          ⟨v.pos.file, v.pos.line, v.pos.column, v.message⟩) ∧
        ∀ v ∈ Validation.violations m, ∀ pos : Position,
          Record.stripStart (Record.lead pos) v.message = v.message := by
  rcases analyze_error_cases h with ⟨e, rfl⟩ | ⟨e, rfl⟩ | ⟨m, hm, hne, rfl⟩
  · exact .inl ⟨e, rfl, Failure.recordedAt_ofSyntax e⟩
  · exact .inr (.inl ⟨e, rfl, Failure.recordedAt_ofImport e⟩)
  · refine .inr (.inr ⟨m, hm, rfl, hne, ?_, fun v hv pos => ?_⟩)
    · exact List.map_congr_left fun v hv => Record.ofPosition_eq (not_lead_prefix_message hm hv _)
    · exact Record.stripStart_eq_self (not_lead_prefix_message hm hv pos)

/-- The name of the file is what the messages of its two faults begin with. -/
theorem analyze_records_of_unknown_types :
    ∃ disk m f, disk = FileTree.toDisk ⟨[], .present []⟩ ∧
      (resolveSource disk none "unknown type" "namespace a interface I { f() T g() U }").result =
        .ok m ∧
      (analyze disk "unknown type" "namespace a interface I { f() T g() U }").result = .error f ∧
      f.records = [⟨"unknown type", 1, 31, "unknown type: T"⟩,
        ⟨"unknown type", 1, 37, "unknown type: U"⟩] ∧
      ∀ v ∈ Validation.violations m, ∀ pos : Position,
        Record.stripStart (Record.lead pos) v.message = v.message := by
  obtain ⟨disk, hdisk⟩ : ∃ disk, disk = FileTree.toDisk ⟨[], .present []⟩ := ⟨_, rfl⟩
  have hlocate : Imports.locate disk none ⟨"unknown type"⟩ = .ok ⟨"/unknown type"⟩ := by
    rw [hdisk]
    decide +kernel
  have hload : (⟨⟨"/unknown type"⟩, "unknown type", "namespace a interface I { f() T g() U }"⟩ :
      SourceUnit).load.1.toOption =
      some (⟨"unknown type", "a", [⟨"I", "a",
        [⟨"f", [], some (.named ⟨"T", ⟨"unknown type", 1, 31, 30⟩⟩), false, "",
            ⟨"unknown type", 1, 27, 26⟩⟩,
          ⟨"g", [], some (.named ⟨"U", ⟨"unknown type", 1, 37, 36⟩⟩), false, "",
            ⟨"unknown type", 1, 33, 32⟩⟩],
        "", ⟨"unknown type", 1, 13, 12⟩⟩], [], []⟩, []) := by
    decide +kernel
  have hresolve := Imports.Follows.resolve hlocate hload .done rfl
  have hanalyze := analyze_of_violations hresolve (by
    rw [Validation.violations_of_no_structs rfl]
    decide +kernel)
  refine ⟨disk, _, _, hdisk, hresolve, hanalyze, ?_⟩
  obtain ⟨_, ⟨⟩, _⟩ | ⟨_, ⟨⟩, _⟩ | ⟨m, hm, _, _, hrecords, hkept⟩ := analyze_records hanalyze
  cases hresolve.symm.trans hm
  refine ⟨?_, hkept⟩
  rw [hrecords, Validation.violations_of_no_structs rfl]
  decide +kernel

end Analysis

end InterfaceLang
