import InterfaceLang.Model.Groups
import InterfaceLang.Proofs.Imports.Bindings
import Mathlib.Data.List.TakeWhile
import Mathlib.Data.String.Basic

/-!
# Groups and files

A resolved model knows nothing of files, but its groups follow them. Every file has one namespace or
none, and what it contributes is grouped under that namespace: a declaration that carries one by
what it carries, and one that carries none by its name, which is then an identifier and has nothing
before a dot. A namespace has one file, so its group is what that file contributes; the files
without a namespace share the group of the empty one.

Results:
* `Divides.filter`: filtering by each of some distinct keys divides a list.
* `Graph.Collects.holds_group`: a group is what the files of its namespace contribute.
* `resolve_grouped`: the groups of a resolved model divide its declarations by file.
-/

namespace InterfaceLang

/-! ## Dividing a list -/

/-- The parts divide the whole among them: together they have what the whole has, as often as it
does, no two of them share an item, and each keeps the order of the whole. -/
structure Divides {α : Type} (parts : List (List α)) (whole : List α) : Prop where
  perm : parts.flatten.Perm whole
  disjoint : parts.Pairwise List.Disjoint
  sublist : ∀ part ∈ parts, part.Sublist whole

section Keys

variable {α β κ : Type} [DecidableEq κ] {key : α → κ}

/-- Dividing a list by its keys loses and repeats nothing. -/
theorem flatten_filter_perm (keys : List κ) (l : List α) (hkeys : keys.Nodup)
    (h : ∀ a ∈ l, key a ∈ keys) :
    (keys.map fun k => l.filter fun a => key a = k).flatten.Perm l := by
  induction keys generalizing l with
  | nil =>
    have hl : l = [] := List.eq_nil_iff_forall_not_mem.2 fun a ha => List.not_mem_nil (h a ha)
    rw [hl]
    exact .nil
  | cons k keys ih =>
    obtain ⟨hk, hkeys⟩ := List.nodup_cons.1 hkeys
    -- the other keys find their items among those that do not have the first key
    have hrest : (keys.map fun k' => (l.filter fun a => !decide (key a = k)).filter
        fun a => key a = k') = keys.map fun k' => l.filter fun a => key a = k' := by
      refine List.map_congr_left fun k' hk' => ?_
      rw [List.filter_filter]
      refine List.filter_congr fun a _ => ?_
      have hne : k' ≠ k := fun heq => hk (heq ▸ hk')
      by_cases ha : key a = k' <;> simp [ha, hne]
    have hother := ih (l.filter fun a => !decide (key a = k)) hkeys (by
      intro a ha
      simp only [List.mem_filter, Bool.not_eq_true', decide_eq_false_iff_not] at ha
      exact (List.mem_cons.1 (h a ha.1)).resolve_left ha.2)
    rw [hrest] at hother
    rw [List.map_cons, List.flatten_cons]
    exact (hother.append_left _).trans (List.filter_append_perm _ l)

/-- Filtering by each of some distinct keys divides a list whose items have such keys. -/
theorem Divides.filter {keys : List κ} {l : List α} (hkeys : keys.Nodup)
    (h : ∀ a ∈ l, key a ∈ keys) : Divides (keys.map fun k => l.filter fun a => key a = k) l where
  perm := flatten_filter_perm keys l hkeys h
  disjoint := by
    refine List.pairwise_map.2 (hkeys.imp fun {k k'} hne a ha ha' => hne ?_)
    have hk : key a = k := by simpa using (List.mem_filter.1 ha).2
    have hk' : key a = k' := by simpa using (List.mem_filter.1 ha').2
    exact hk.symm.trans hk'
  sublist := by
    intro part hpart
    obtain ⟨k, _, rfl⟩ := List.mem_map.1 hpart
    exact List.filter_sublist

/-- If the items of each source have the key of the source, filtering the items by a key is
filtering the sources by it. -/
theorem filter_flatMap_of_key {items : β → List α} {keyOf : β → κ} {l : List β}
    (h : ∀ b ∈ l, ∀ a ∈ items b, key a = keyOf b) (k : κ) :
    (l.flatMap items).filter (fun a => key a = k) =
      (l.filter fun b => keyOf b = k).flatMap items := by
  induction l with
  | nil => rfl
  | cons b l ih =>
    obtain ⟨hb, hl⟩ := List.forall_mem_cons.1 h
    rw [List.flatMap_cons, List.filter_append, ih hl, List.filter_cons]
    by_cases hk : keyOf b = k
    · rw [if_pos (by simpa using hk), List.flatMap_cons,
        List.filter_eq_self.2 fun a ha => by simpa using (hb a ha).trans hk]
    · rw [if_neg (by simpa using hk), List.filter_eq_nil_iff.2 fun a ha => by
        simpa [hb a ha] using hk, List.nil_append]

theorem nodup_eraseDups (l : List κ) : l.eraseDups.Nodup := by
  match l with
  | [] => exact .nil
  | a :: l =>
    rw [List.eraseDups_cons, List.nodup_cons]
    exact ⟨by simp, nodup_eraseDups _⟩
termination_by l.length
decreasing_by
  rw [List.length_cons]
  exact Nat.lt_succ_of_le (List.length_filter_le _ _)

end Keys

/-! ## The order of bytes -/

/-- The bytes of a text in its encoding. -/
def utf8Bytes (s : String) : List UInt8 :=
  s.toUTF8.data.toList

/-- The bytes of a text are those of its characters, one after another. -/
theorem utf8Bytes_eq (s : String) : utf8Bytes s = s.toList.flatMap String.utf8EncodeChar := by
  rw [utf8Bytes, String.toUTF8, ← String.utf8Encode_toList, List.utf8Encode]
  simp

theorem utf8EncodeChar_of_ascii {c : Char} (h : c.toNat < 128) :
    String.utf8EncodeChar c = [UInt8.ofNat c.toNat] :=
  if_pos (Nat.le_of_lt_succ h)

/-- The bytes of an ASCII text are its characters. -/
theorem utf8Bytes_of_ascii {s : String} (h : ∀ c ∈ s.toList, c.toNat < 128) :
    utf8Bytes s = s.toList.map fun c => UInt8.ofNat c.toNat := by
  rw [utf8Bytes_eq, ← List.flatMap_pure_eq_map]
  exact List.flatMap_congr fun c hc => utf8EncodeChar_of_ascii (h c hc)

/-- Texts of ASCII characters are ordered as their bytes are. -/
theorem utf8Bytes_lt_of_lt {s t : String} (hs : ∀ c ∈ s.toList, c.toNat < 128)
    (ht : ∀ c ∈ t.toList, c.toNat < 128) (h : s < t) : utf8Bytes s < utf8Bytes t := by
  rw [utf8Bytes_of_ascii hs, utf8Bytes_of_ascii ht]
  rw [String.lt_iff_toList_lt] at h
  generalize s.toList = cs at hs h
  generalize t.toList = ds at ht h
  induction h with
  | nil => exact .nil
  | rel hcd =>
    have hc := hs _ List.mem_cons_self
    have hd := ht _ List.mem_cons_self
    refine .rel (UInt8.lt_iff_toNat_lt.2 ?_)
    rw [UInt8.toNat_ofNat_of_lt' (hc.trans (by decide)),
      UInt8.toNat_ofNat_of_lt' (hd.trans (by decide))]
    exact hcd
  | cons _ ih =>
    exact .cons (ih (List.forall_mem_cons.1 hs).2 (List.forall_mem_cons.1 ht).2)

theorem Name.ascii_of_isIdentifier {name : String} (h : Name.isIdentifier name = true) :
    ∀ c ∈ name.toList, c.toNat < 128 := by
  intro c hc
  rcases isWordChar_iff.1 (isWordChar_of_isIdentifier h c hc) with hletter | hdigit | rfl
  · rcases isLetter_iff.1 hletter with hupper | hlower
    · omega
    · omega
  · omega
  · decide

theorem Name.qualifier_of_not_mem {name : String} (h : '.' ∉ name.toList) :
    qualifier name = "" := by
  have hdrop : name.toList.reverse.dropWhile (· ≠ '.') = [] := by
    rw [List.dropWhile_eq_nil_iff]
    intro c hc
    simpa using fun heq : c = '.' => h (heq ▸ List.mem_reverse.1 hc)
  rw [qualifier, hdrop]
  rfl

/-! ## Groups of a model -/

/-- A group holds the declarations of the given models, those of one model after those of
another. -/
structure NamespaceGroup.Holds (k : NamespaceGroup) (parts : List Model) : Prop where
  structs : k.structs = parts.flatMap (·.structs)
  enums : k.enums = parts.flatMap (·.enums)
  interfaces : k.interfaces = parts.flatMap (·.interfaces)

namespace Model

variable {m : Model} {ns : String}

theorem namespaceList_eq (m : Model) :
    m.namespaceList = m.placements.map fun d => namespaceOf d.2 d.1 := by
  simp [namespaceList, placements, Function.comp_def]

theorem nodup_namespaceKeys (m : Model) : m.namespaceKeys.Nodup :=
  (List.mergeSort_perm _ _).nodup_iff.2 (nodup_eraseDups _)

/-- The keys ascend strictly. -/
theorem pairwise_lt_namespaceKeys (m : Model) : m.namespaceKeys.Pairwise (· < ·) :=
  (m.pairwise_namespaceKeys.and m.nodup_namespaceKeys).imp fun h => lt_of_le_of_ne h.1 h.2

/-- The groups divide the declarations of each kind. -/
theorem divides_of_mem_namespaceList {α : Type} {key : α → String} {items : List α}
    (h : ∀ a ∈ items, key a ∈ m.namespaceList) :
    Divides (m.namespaceKeys.map fun ns => items.filter fun a => key a = ns) items :=
  Divides.filter m.nodup_namespaceKeys fun a ha => mem_namespaceKeys.2 (h a ha)

theorem isEmpty_iff_placements : m.isEmpty = true ↔ m.placements = [] := by
  simp only [isEmpty, placements, Bool.and_eq_true, List.isEmpty_iff, List.append_eq_nil_iff,
    List.map_eq_nil_iff]
  exact ⟨fun h => ⟨⟨h.1.2, h.2⟩, h.1.1⟩, fun h => ⟨⟨h.2, h.1.1⟩, h.1.2⟩⟩

/-- The group of a namespace that holds a declaration is not empty. -/
theorem group_ne_nil (h : ns ∈ m.namespaceList) :
    (m.group ns).structs ≠ [] ∨ (m.group ns).enums ≠ [] ∨ (m.group ns).interfaces ≠ [] := by
  simp only [namespaceList, List.mem_append, List.mem_map] at h
  rcases h with (⟨s, hs, rfl⟩ | ⟨e, he, rfl⟩) | ⟨i, hi, rfl⟩
  · exact .inl (List.ne_nil_of_mem (List.mem_filter.2 ⟨hs, by simp⟩))
  · exact .inr (.inl (List.ne_nil_of_mem (List.mem_filter.2 ⟨he, by simp⟩)))
  · exact .inr (.inr (List.ne_nil_of_mem (List.mem_filter.2 ⟨hi, by simp⟩)))

end Model

/-! ## Groups of a resolved model -/

namespace Imports

variable {g : Graph} {order : List Path} {m : Model} {p : Path} {ns : String}

/-- The groups of a model divide its declarations by the files that a graph holds. -/
structure Graph.Grouped (g : Graph) (m : Model) : Prop where
  structs : Divides (m.groups.map (·.structs)) m.structs
  enums : Divides (m.groups.map (·.enums)) m.enums
  interfaces : Divides (m.groups.map (·.interfaces)) m.interfaces
  inhabited : ∀ k ∈ m.groups, k.structs ≠ [] ∨ k.enums ≠ [] ∨ k.interfaces ≠ []
  ascending : (m.groups.map fun k => utf8Bytes k.ns).Pairwise (· < ·)
  /-- A file that declares something has the group of its namespace. -/
  present : ∀ p, g.Reachable p → (g.contribution p).isEmpty = false →
    ∃ k ∈ m.groups, k.ns = (g.own p).rootNs
  /-- The group of a namespace holds what the one file contributes that declares it. -/
  named : ∀ k ∈ m.groups, k.ns ≠ "" → ∃ p, g.Reachable p ∧ g.Declares p k.ns ∧
    (∀ q, g.Reachable q → g.Declares q k.ns → q = p) ∧ k.Holds [g.contribution p]
  /-- The group without a namespace holds what the files contribute that declare none. -/
  flat : ∀ k ∈ m.groups, k.ns = "" → ∃ files : List Path, files.Nodup ∧
    (∀ p, p ∈ files ↔ g.Reachable p ∧ ∀ ns, ¬g.Declares p ns) ∧
      k.Holds (files.map g.contribution)

/-- What a file contributes belongs to the namespace of the file. -/
theorem Graph.namespaceOf_contribution (h : g.lowered? p = some (g.own p)) :
    ∀ d ∈ (g.contribution p).placements, Model.namespaceOf d.2 d.1 = (g.own p).rootNs := by
  obtain ⟨u, f, _, hf, hm⟩ := lowered?_eq_some_iff.1 h
  have hplaced := Model.placements_toModel (Parser.names_of_parse hf) hm
  by_cases hns : (g.own p).rootNs = ""
  · have hcontribution : g.contribution p = g.own p := by
      rw [contribution, Model.exported, if_pos hns, ite_self]
    intro d hd
    rw [hcontribution] at hd
    obtain ⟨hd1, hd2⟩ := hplaced d hd
    rw [Model.namespaceOf, if_pos (hd1.trans hns), hns]
    exact Name.qualifier_of_not_mem (Name.dot_not_mem_of_isIdentifier hd2)
  · have hwithin : (g.contribution p).Within (g.own p).rootNs := by
      have hown := (ofOneFile_of_lowered? h).toWithin
      unfold contribution
      split
      · exact hown
      · exact hown.exported
    intro d hd
    rw [Model.namespaceOf, hwithin.ns_of_mem hd, if_neg hns]

/-- A file that can be lowered declares no namespace exactly if its model has none. -/
theorem Graph.not_declares_iff (h : g.lowered? p = some m) :
    (∀ ns, ¬g.Declares p ns) ↔ m.rootNs = "" := by
  constructor
  · intro hnone
    by_contra hns
    exact hnone _ ((declares_iff h hns).2 rfl)
  · intro hflat ns hdeclares
    by_cases hns : ns = ""
    · rw [hns] at hdeclares
      exact absurd (isIdentifier_of_declares hdeclares) (by decide)
    · exact hns (((declares_iff h hns).1 hdeclares).symm.trans hflat)

namespace Graph.Collects

/-- The group of a namespace is what the files of the namespace contribute, in the order of the
walk. -/
theorem holds_group (h : g.Collects order m) (ns : String) :
    (m.group ns).Holds
      ((order.filter fun p => (g.own p).rootNs = ns).map g.contribution) := by
  have hkey : ∀ p ∈ order, ∀ d ∈ (g.contribution p).placements,
      Model.namespaceOf d.2 d.1 = (g.own p).rootNs := fun p hp =>
    namespaceOf_contribution (h.lowered p hp)
  simp only [Model.placements, List.forall_mem_append, List.forall_mem_map] at hkey
  refine ⟨?_, ?_, ?_⟩
  · rw [List.flatMap_map, Model.group, h.structs]
    exact filter_flatMap_of_key (fun p hp => (hkey p hp).1.1) ns
  · rw [List.flatMap_map, Model.group, h.enums]
    exact filter_flatMap_of_key (fun p hp => (hkey p hp).1.2) ns
  · rw [List.flatMap_map, Model.group, h.interfaces]
    exact filter_flatMap_of_key (fun p hp => (hkey p hp).2) ns

/-- The declarations of a collected model are those of the contributions. -/
theorem mem_placements_iff (h : g.Collects order m) {d : String × String} :
    d ∈ m.placements ↔ ∃ p ∈ order, d ∈ (g.contribution p).placements := by
  simp only [Model.placements, h.structs, h.enums, h.interfaces, List.map_flatMap,
    List.mem_append, List.mem_flatMap]
  grind

/-- The namespaces that hold declarations are those of the files that contribute some. -/
theorem mem_namespaceKeys_iff (h : g.Collects order m) :
    ns ∈ m.namespaceKeys ↔
      ∃ p ∈ order, (g.contribution p).placements ≠ [] ∧ (g.own p).rootNs = ns := by
  rw [Model.mem_namespaceKeys, Model.namespaceList_eq, List.mem_map]
  constructor
  · rintro ⟨d, hd, rfl⟩
    obtain ⟨p, hp, hdp⟩ := h.mem_placements_iff.1 hd
    exact ⟨p, hp, List.ne_nil_of_mem hdp, (namespaceOf_contribution (h.lowered p hp) d hdp).symm⟩
  · rintro ⟨p, hp, hne, rfl⟩
    obtain ⟨d, hd⟩ := List.exists_mem_of_ne_nil _ hne
    exact ⟨d, h.mem_placements_iff.2 ⟨p, hp, hd⟩, namespaceOf_contribution (h.lowered p hp) d hd⟩

/-- The keys of the groups ascend in the order of their bytes. -/
theorem ascending (h : g.Collects order m) :
    (m.groups.map fun k => utf8Bytes k.ns).Pairwise (· < ·) := by
  have hascii : ∀ ns ∈ m.namespaceKeys, ∀ c ∈ ns.toList, c.toNat < 128 := by
    intro ns hns
    obtain ⟨p, hp, _, rfl⟩ := h.mem_namespaceKeys_iff.1 hns
    by_cases hflat : (g.own p).rootNs = ""
    · simp [hflat]
    · exact Name.ascii_of_isIdentifier
        (isIdentifier_of_declares ((declares_iff (h.lowered p hp) hflat).2 rfl))
  rw [Model.groups, List.map_map, List.pairwise_map]
  refine m.pairwise_lt_namespaceKeys.imp_of_mem fun hns hns' hlt => ?_
  exact utf8Bytes_lt_of_lt (hascii _ hns) (hascii _ hns') hlt

/-- The one file of a namespace is the only one on the walk that has it. -/
theorem filter_eq_singleton (h : g.Collects order m) (hg : g.Resolvable) (hp : p ∈ order)
    (hns : (g.own p).rootNs ≠ "") :
    (order.filter fun q => (g.own q).rootNs = (g.own p).rootNs) = [p] := by
  have hdeclares : ∀ q ∈ order, (g.own q).rootNs = (g.own p).rootNs →
      g.Declares q (g.own p).rootNs := fun q hq heq =>
    (declares_iff (h.lowered q hq) hns).2 heq
  have hmem : ∀ q, (q ∈ order ∧ (g.own q).rootNs = (g.own p).rootNs) ↔ q = p := by
    intro q
    constructor
    · rintro ⟨hq, heq⟩
      exact hg.distinct q p _ (h.walk.mem_iff.1 hq) (h.walk.mem_iff.1 hp) hns
        (hdeclares q hq heq) (hdeclares p hp rfl)
    · rintro rfl
      exact ⟨hp, rfl⟩
  refine List.perm_singleton.1 ((List.perm_ext_iff_of_nodup (h.walk.nodup.filter _)
    (List.nodup_singleton p)).2 fun q => ?_)
  rw [List.mem_filter, List.mem_singleton, decide_eq_true_eq, hmem]

/-- The groups of a collected model, kind by kind. -/
theorem grouped (h : g.Collects order m) (hg : g.Resolvable) : g.Grouped m where
  structs := by
    rw [Model.groups, List.map_map]
    exact Model.divides_of_mem_namespaceList fun s hs => List.mem_append_left _
      (List.mem_append_left _ (List.mem_map.2 ⟨s, hs, rfl⟩))
  enums := by
    rw [Model.groups, List.map_map]
    exact Model.divides_of_mem_namespaceList fun e he => List.mem_append_left _
      (List.mem_append_right _ (List.mem_map.2 ⟨e, he, rfl⟩))
  interfaces := by
    rw [Model.groups, List.map_map]
    exact Model.divides_of_mem_namespaceList fun i hi =>
      List.mem_append_right _ (List.mem_map.2 ⟨i, hi, rfl⟩)
  inhabited := by
    intro k hk
    obtain ⟨ns, hns, rfl⟩ := List.mem_map.1 hk
    exact Model.group_ne_nil (Model.mem_namespaceKeys.1 hns)
  ascending := h.ascending
  present := by
    intro p hp hempty
    have hne : (g.contribution p).placements ≠ [] := by
      rw [ne_eq, ← Model.isEmpty_iff_placements, hempty]
      simp
    have hkey := h.mem_namespaceKeys_iff.2 ⟨p, h.walk.mem_iff.2 hp, hne, rfl⟩
    exact ⟨_, List.mem_map.2 ⟨_, hkey, rfl⟩, rfl⟩
  named := by
    intro k hk hne
    obtain ⟨ns, hns, rfl⟩ := List.mem_map.1 hk
    obtain ⟨p, hp, _, rfl⟩ := h.mem_namespaceKeys_iff.1 hns
    have hreach := h.walk.mem_iff.1 hp
    have hdeclares := (declares_iff (h.lowered p hp) hne).2 rfl
    refine ⟨p, hreach, hdeclares, fun q hq hdq => hg.distinct q p _ hq hreach hne hdq hdeclares, ?_⟩
    have hholds := h.holds_group (g.own p).rootNs
    rwa [h.filter_eq_singleton hg hp hne] at hholds
  flat := by
    intro k hk hflat
    obtain ⟨ns, _, rfl⟩ := List.mem_map.1 hk
    refine ⟨_, h.walk.nodup.filter _, fun p => ?_, h.holds_group ns⟩
    rw [List.mem_filter, h.walk.mem_iff]
    refine and_congr_right fun hp => ?_
    rw [not_declares_iff (h.lowered p (h.walk.mem_iff.2 hp)), decide_eq_true_eq]
    exact Eq.congr_right hflat

end Graph.Collects

/-- The groups of a resolved model divide its declarations by file: each namespace has the
declarations of its one file, and the files without a namespace share a group. -/
theorem resolve_grouped {disk : Disk} {baseDir : Option Path} {name text : String}
    (h : (resolve disk baseDir name text).1 = .ok m) :
    ∃ path, locate disk baseDir ⟨name⟩ = .ok path ∧
      (⟨disk, ⟨path, name, text⟩⟩ : Graph).Grouped m := by
  obtain ⟨path, order, hpath, hg, hcollects⟩ := collects_of_resolve h
  exact ⟨path, hpath, hcollects.grouped hg⟩

/-- A root without a namespace and an imported file that has one. -/
theorem resolve_grouped_of_import :
    ∃ m, (resolve (FileTree.toDisk ⟨[(["b"], .file "namespace b enum E { }".toUTF8)],
        .present []⟩) none "/a" "import \"b\" struct S { }").1 = .ok m ∧
      (m.group "").structs.map (·.name) = ["S"] ∧ (m.group "b").enums.map (·.name) = ["b.E"] ∧
      (⟨FileTree.toDisk ⟨[(["b"], .file "namespace b enum E { }".toUTF8)], .present []⟩,
        ⟨⟨"/a"⟩, "/a", "import \"b\" struct S { }"⟩⟩ : Graph).Grouped m := by
  have hlocate : locate (FileTree.toDisk ⟨[(["b"], .file "namespace b enum E { }".toUTF8)],
      .present []⟩) none ⟨"/a"⟩ = .ok ⟨"/a"⟩ := rfl
  have hload : (⟨⟨"/a"⟩, "/a", "import \"b\" struct S { }"⟩ : SourceUnit).load.1.toOption =
      some (⟨"/a", "", [], [⟨"S", "", "", [], "", ⟨"/a", 1, 12, 11⟩⟩], []⟩,
        [⟨"b", ⟨"/a", 1, 1, 0⟩, 10⟩]) := by
    decide +kernel
  have hread : (FileTree.toDisk ⟨[(["b"], .file "namespace b enum E { }".toUTF8)],
      .present []⟩).read ⟨"/b"⟩ = .ok "namespace b enum E { }" := by
    decide +kernel
  have hsub : (⟨⟨"/b"⟩, "/b", "namespace b enum E { }"⟩ : SourceUnit).load.1.toOption =
      some (⟨"/b", "b", [], [], [⟨"E", "b", [], "", ⟨"/b", 1, 13, 12⟩⟩]⟩, []) := by
    decide +kernel
  have hresolve := Follows.resolve hlocate hload (.visit (by decide +kernel) (by decide +kernel)
    (by decide +kernel) hread hsub .done (by decide) .done) (by decide)
  obtain ⟨path, hpath, hgrouped⟩ := resolve_grouped hresolve
  rw [hlocate] at hpath
  cases hpath
  exact ⟨_, hresolve, by decide +kernel, by decide +kernel, hgrouped⟩

end Imports

end InterfaceLang
