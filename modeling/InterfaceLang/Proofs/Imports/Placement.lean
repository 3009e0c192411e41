import InterfaceLang.Proofs.Imports.Resolution

/-!
# Where declarations stand

In the model of a resolution, the declarations of the root file have bare names, and every other
declaration has a bare name under the namespace that it carries. The two do not mix: a file claims
its namespace when its imports have been followed, and the claim fails if one of the imported files
has that namespace. The root may be given by any path, in normal form or not.

Results:
* `Model.Placed.imported`: what an importing file sees are bare names under their namespaces.
* `Imports.placed_of_resolveFile`: resolving a root gives a model in which the declarations stand as
  said.
-/

namespace InterfaceLang

namespace Model

/-- The name `d.2` is a bare name under the namespace `d.1`, which may be empty. -/
def IsUnder (d : String × String) : Prop :=
  ∃ name, Name.isIdentifier name = true ∧ d.2 = Name.qualify d.1 name

/-- The declarations of the model's own namespace have bare names, the others have bare names under
their namespaces. -/
def Placed (m : Model) : Prop :=
  ∀ d ∈ m.placements, (d.1 = m.rootNs ∧ Name.isIdentifier d.2 = true) ∨
    (d.1 ≠ m.rootNs ∧ IsUnder d)

variable {m sub : Model} {d : String × String}

/-- Qualifying renames the declarations of the namespace and moves none. -/
theorem placements_qualify (m : Model) (ns : String) :
    (m.qualify ns).placements =
      m.placements.map fun d => (d.1, if d.1 = ns then Name.qualify ns d.2 else d.2) := by
  have hstruct : ∀ s : Struct,
      ((s.qualify (m.ownNames ns) ns).ns, (s.qualify (m.ownNames ns) ns).name) =
        (s.ns, if s.ns = ns then Name.qualify ns s.name else s.name) := by
    intro s
    unfold Struct.qualify
    split <;> rfl
  have henum : ∀ e : Enum, ((e.qualify ns).ns, (e.qualify ns).name) =
      (e.ns, if e.ns = ns then Name.qualify ns e.name else e.name) := by
    intro e
    unfold Enum.qualify
    split <;> rfl
  have hinterface : ∀ i : Interface,
      ((i.qualify (m.ownNames ns) ns).ns, (i.qualify (m.ownNames ns) ns).name) =
        (i.ns, if i.ns = ns then Name.qualify ns i.name else i.name) := by
    intro i
    unfold Interface.qualify
    split <;> rfl
  simp only [placements, qualify, List.map_append, List.map_map, Function.comp_def, hstruct, henum,
    hinterface]

/-- Merging adds the declarations as an importing file sees them. -/
theorem mem_placements_merge :
    d ∈ (m.merge sub).placements ↔ d ∈ m.placements ∨ d ∈ sub.imported.placements := by
  simp only [placements, merge, List.map_append, List.mem_append]
  grind

/-- An importing file sees bare names under their namespaces, and the same namespaces. -/
theorem Placed.imported (h : m.Placed) (hd : d ∈ m.imported.placements) :
    IsUnder d ∧ ∃ name, (d.1, name) ∈ m.placements := by
  unfold Model.imported at hd
  split at hd
  · next hflat =>
    refine ⟨?_, d.2, hd⟩
    rcases h d hd with ⟨hns, hid⟩ | ⟨_, hunder⟩
    · exact ⟨d.2, hid, by rw [hns, hflat, Name.qualify_empty]⟩
    · exact hunder
  · rw [placements_qualify] at hd
    obtain ⟨d', hd', rfl⟩ := List.mem_map.1 hd
    refine ⟨?_, d'.2, hd'⟩
    rcases h d' hd' with ⟨hns, hid⟩ | ⟨hns, hunder⟩
    · exact ⟨d'.2, hid, by rw [if_pos hns, hns]⟩
    · simpa only [if_neg hns] using hunder

end Model

namespace Imports

variable {chain : List Path} {r r' r'' : Registry} {p : Path}

/-! ## Owners of namespaces -/

/-- The files that own a namespace are included and not on the chain. -/
def OwnersLeft (chain : List Path) (r : Registry) : Prop :=
  ∀ ns q, r.owner? ns = some q → r.includes q = true ∧ ¬onChain chain q = true

/-- A later registry: nothing is taken out, and namespaces keep their owners. -/
structure Later (r r' : Registry) : Prop where
  includes : ∀ q, r.includes q = true → r'.includes q = true
  owners : ∀ ns q, r.owner? ns = some q → r'.owner? ns = some q

theorem Later.refl (r : Registry) : Later r r :=
  ⟨fun _ h => h, fun _ _ h => h⟩

/-- A registry later than a later one is later. -/
theorem Later.trans (h : Later r r') (h' : Later r' r'') : Later r r'' :=
  ⟨fun q hq => h'.includes q (h.includes q hq), fun ns q hq => h'.owners ns q (h.owners ns q hq)⟩

/-- Including a file makes a later registry. -/
theorem later_addFile (r : Registry) (p : Path) : Later r (r.addFile p) := by
  unfold Registry.addFile
  split
  · exact .refl r
  · refine ⟨fun q hq => ?_, fun _ _ h => h⟩
    rw [Registry.includes, List.any_append, Bool.or_eq_true]
    exact .inl hq

theorem includes_addFile (r : Registry) (p : Path) : (r.addFile p).includes p = true := by
  unfold Registry.addFile
  split
  · assumption
  · simp [Registry.includes, Path.same]

/-- Including a file gives no namespace away. -/
theorem owner?_addFile (r : Registry) (p : Path) (ns : String) :
    (r.addFile p).owner? ns = r.owner? ns := by
  unfold Registry.addFile
  split <;> rfl

/-- A file is on the longer chain if it was on the chain or is the new one. -/
theorem onChain_concat {q : Path} :
    onChain (chain ++ [p]) q = true ↔ onChain chain q = true ∨ p.same q = true := by
  simp [onChain]

theorem includes_of_same {q : Path} (h : p.same q = true) (hq : r.includes q = true) :
    r.includes p = true := by
  simp_all [Registry.includes, Path.same]

/-- A file that is met for the first time enters the chain. -/
theorem OwnersLeft.enter (h : OwnersLeft chain r) (hnew : ¬r.includes p = true) :
    OwnersLeft (chain ++ [p]) (r.addFile p) := by
  intro ns q hq
  rw [owner?_addFile] at hq
  obtain ⟨hinc, hoff⟩ := h ns q hq
  refine ⟨(later_addFile r p).includes q hinc, fun hmem => ?_⟩
  rcases onChain_concat.1 hmem with hmem | hsame
  · exact hoff hmem
  · exact hnew (includes_of_same hsame hinc)

/-- Leaving the chain can only make more files fit to own a namespace. -/
theorem OwnersLeft.leave (h : OwnersLeft (chain ++ [p]) r) : OwnersLeft chain r := by
  intro ns q hq
  obtain ⟨hinc, hoff⟩ := h ns q hq
  exact ⟨hinc, fun hmem => hoff (onChain_concat.2 (.inl hmem))⟩

/-- A file on the chain owns nothing, so it can claim a free namespace only; then it leaves the
chain. -/
theorem OwnersLeft.claim {ns : String} (h : OwnersLeft (chain ++ [p]) r)
    (hoff : ¬onChain chain p = true) (hinc : r.includes p = true) (hclaim : r.claim ns p = .ok r') :
    r.owner? ns = none ∧ r'.owner? ns = some p ∧ Later r r' ∧ OwnersLeft chain r' := by
  rcases Registry.claim_eq_ok hclaim with ⟨first, hfirst, hsame, _⟩ | ⟨hnone, rfl⟩
  · have hmem : onChain (chain ++ [p]) first = true :=
      onChain_concat.2 (.inr (by simpa [Path.same, eq_comm] using hsame))
    exact absurd hmem (h ns first hfirst).2
  · refine ⟨hnone, ?_, ⟨fun _ hq => hq, ?_⟩, ?_⟩
    · rw [Registry.owner?_concat hnone, if_pos rfl]
    · exact fun _ _ hq => Registry.owner?_claim_of_some hclaim hq
    · intro other q hq
      rw [Registry.owner?_concat hnone] at hq
      split at hq
      · cases hq
        exact ⟨hinc, hoff⟩
      · exact h.leave other q hq

/-! ## What success keeps -/

/-- A declaration of an imported file: a bare name under its namespace, which has an owner unless it
is empty. -/
def Foreign (r : Registry) (d : String × String) : Prop :=
  Model.IsUnder d ∧ (d.1 ≠ "" → ∃ q, r.owner? d.1 = some q)

/-- What is foreign stays so in later registries. -/
theorem Foreign.later {d : String × String} (h : Foreign r d) (hlater : Later r r') :
    Foreign r' d := by
  refine ⟨h.1, fun hne => ?_⟩
  obtain ⟨q, hq⟩ := h.2 hne
  exact ⟨q, hlater.owners _ _ hq⟩

/-- What a resolved file leaves behind. -/
structure FilePlaced (chain : List Path) (r r' : Registry) (m : Model) : Prop where
  owners : OwnersLeft chain r'
  later : Later r r'
  placed : m.Placed
  owned : ∀ d ∈ m.placements, d.1 ≠ "" → ∃ q, r'.owner? d.1 = some q

/-- What following imports adds to a model. -/
structure ImportsPlaced (chain : List Path) (r r' : Registry) (m m' : Model) : Prop where
  owners : OwnersLeft chain r'
  later : Later r r'
  rootNs : m'.rootNs = m.rootNs
  placements : ∀ d ∈ m'.placements, d ∈ m.placements ∨ Foreign r' d

/-- What an importing file sees of a resolved file is foreign to it. -/
theorem FilePlaced.imported {sub : Model} {d : String × String} (h : FilePlaced chain r r' sub)
    (hd : d ∈ sub.imported.placements) : Foreign r' d := by
  obtain ⟨hunder, name, hname⟩ := h.placed.imported hd
  exact ⟨hunder, h.owned (d.1, name) hname⟩

theorem ImportsPlaced.nil (h : OwnersLeft chain r) (m : Model) : ImportsPlaced chain r r m m :=
  ⟨h, .refl r, rfl, fun _ hd => .inl hd⟩

/-- One more import has been followed and merged. -/
theorem ImportsPlaced.visit {m sub m' : Model} (h : FilePlaced chain r r' sub)
    (h' : ImportsPlaced chain r' r'' (m.merge sub) m') : ImportsPlaced chain r r'' m m' where
  owners := h'.owners
  later := h.later.trans h'.later
  rootNs := h'.rootNs
  placements := by
    intro d hd
    rcases h'.placements d hd with hd | hd
    · rcases Model.mem_placements_merge.1 hd with hd | hd
      · exact .inl hd
      · exact .inr ((h.imported hd).later h'.later)
    · exact .inr hd

/-- The imports of a file have been followed: what is left to do is to claim its namespace. -/
theorem filePlaced_of_claim {u : SourceUnit} {m m' m'' : Model} {st st' : Progress}
    (hown : ∀ d ∈ m.placements, d.1 = m.rootNs ∧ Name.isIdentifier d.2 = true)
    (hoff : ¬onChain chain u.path = true)
    (h : ImportsPlaced (chain ++ [u.path]) (r.addFile u.path) st.registry m m')
    (hclaim : claim u m' st = (.ok m'', st')) : FilePlaced chain r st'.registry m'' := by
  have hlater := (later_addFile r u.path).trans h.later
  unfold claim at hclaim
  split at hclaim
  · next hflat =>
    cases hclaim
    refine ⟨h.owners.leave, hlater, fun d hd => ?_, fun d hd hne => ?_⟩
    · rcases h.placements d hd with hd | ⟨⟨name, hid, hname⟩, hforeign⟩
      · exact .inl ⟨(hown d hd).1.trans h.rootNs.symm, (hown d hd).2⟩
      · by_cases hns : d.1 = m'.rootNs
        · rw [hns, hflat, Name.qualify_empty] at hname
          exact .inl ⟨hns, hname ▸ hid⟩
        · exact .inr ⟨hns, name, hid, hname⟩
    · rcases h.placements d hd with hd | hforeign
      · exact absurd ((hown d hd).1.trans (h.rootNs.symm.trans hflat)) hne
      · exact hforeign.2 hne
  · next hns =>
    split at hclaim
    · next r' hr =>
      cases hclaim
      have hinc := h.later.includes _ (includes_addFile r u.path)
      obtain ⟨hnone, hown', hlater', howners⟩ := h.owners.claim hoff hinc hr
      refine ⟨howners, hlater.trans hlater', fun d hd => ?_, fun d hd hne => ?_⟩
      · rcases h.placements d hd with hd | ⟨hunder, hforeign⟩
        · exact .inl ⟨(hown d hd).1.trans h.rootNs.symm, (hown d hd).2⟩
        · -- the namespace was free, so no imported declaration carries it
          refine .inr ⟨fun heq => ?_, hunder⟩
          obtain ⟨q, hq⟩ := hforeign (heq ▸ hns)
          rw [heq, hnone] at hq
          cases hq
      · rcases h.placements d hd with hd | hforeign
        · rw [(hown d hd).1, ← h.rootNs]
          exact ⟨_, hown'⟩
        · exact (hforeign.later hlater').2 hne
    · cases hclaim

/-! ## The two functions -/

/-- Resolving a file that is met for the first time. -/
def FileKeeps (disk : Disk) (chain : List Path) (u : SourceUnit) (st : Progress) : Prop :=
  ∀ m st', resolveFile disk chain u st = (.ok m, st') → ¬onChain chain u.path = true →
    ¬st.registry.includes u.path = true → OwnersLeft chain st.registry →
    FilePlaced chain st.registry st'.registry m

/-- Following imports. -/
def ImportsKeep (disk : Disk) (chain : List Path) (u : SourceUnit) (imports : List Directive)
    (m : Model) (st : Progress) : Prop :=
  ∀ m' st', resolveImports disk chain u imports m st = (.ok m', st') →
    OwnersLeft chain st.registry → ImportsPlaced chain st.registry st'.registry m m'

/-- Both functions keep declarations placed, by induction along their calls. -/
theorem resolve_keeps (disk : Disk) :
    (∀ chain u st, FileKeeps disk chain u st) ∧
      ∀ chain u imports m st, ImportsKeep disk chain u imports m st := by
  refine resolve_induct disk (FileKeeps disk) (ImportsKeep disk)
    ?load_error ?load_ok ?nil ?on_chain ?included ?read_error ?read_ok
  case load_error =>
    intro chain u st f es hload m st' h
    rw [resolveFile_of_load_error hload] at h
    cases h
  case load_ok =>
    intro chain u st m imports es hload ih m'' st'' h hoff hnew howners
    rcases resolveFile_cases disk chain st hload with
      ⟨f, st', _, hfile⟩ | ⟨m', st', himports, hfile⟩ <;> rw [hfile] at h
    · cases h
    · obtain ⟨_, f, hf, hm⟩ := SourceUnit.load_eq_ok hload
      exact filePlaced_of_claim (Model.placements_toModel (Parser.names_of_parse hf) hm) hoff
        (ih m' st' himports (howners.enter hnew)) h
  case nil =>
    intro chain u m st m' st' h howners
    rw [resolveImports_nil] at h
    cases h
    exact .nil howners m
  case on_chain =>
    intro chain u d rest m st hchain m' st' h
    rw [resolveImports_of_onChain hchain] at h
    cases h
  case included =>
    intro chain u d rest m st hchain hinc ih m' st' h howners
    rw [resolveImports_of_included hchain hinc] at h
    exact ih m' st' h howners
  case read_error =>
    intro chain u d rest m st cause hchain hinc hread m' st' h
    rw [resolveImports_of_read_error hchain hinc hread] at h
    cases h
  case read_ok =>
    intro chain u d rest m st p text htarget hchain hinc hread ihfile ihrest m' st'' h howners
    rcases resolveImports_cases m rest htarget hchain hinc hread with
      ⟨f, st', hfile, himports⟩ | ⟨sub, st', hfile, himports⟩ <;> rw [himports] at h
    · cases h
    · have hplaced : FilePlaced chain st.registry st'.registry sub :=
        ihfile sub st' hfile hchain hinc howners
      exact .visit hplaced (ihrest sub st' hfile m' st'' h hplaced.owners)

/-- Resolving a root gives a model in which own declarations have bare names and all others bare
names under another namespace. -/
theorem placed_of_resolveFile {disk : Disk} {u : SourceUnit} {m : Model} {st : Progress}
    (h : resolveFile disk [] u .start = (.ok m, st)) : m.Placed :=
  ((resolve_keeps disk).1 [] u .start m st h (by simp [onChain])
    (by simp [Progress.start, Registry.empty, Registry.includes])
    (by simp [OwnersLeft, Progress.start, Registry.empty, Registry.owner?])).placed

end Imports

end InterfaceLang
