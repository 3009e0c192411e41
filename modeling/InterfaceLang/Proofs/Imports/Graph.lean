import InterfaceLang.Imports.Resolve
import InterfaceLang.Proofs.Path.NormalForm
import InterfaceLang.Proofs.Walk

/-!
# The import graph

The nodes are paths in normal form. The root carries the text that was handed in, every other path
carries what the disk holds there. An edge leads from a file to the target of each of its import
directives.

A graph is resolvable if every file that can be reached from the root can be read and parsed and
declares at most one namespace, no such file lies on a cycle, and no two such files declare one
namespace. `Preorder` lists the files that can be reached in the order in which a depth-first walk
meets them.

Results:
* `exists_lowered?_iff`: a file can be lowered exactly if it can be read and parsed and declares at
  most one namespace.
* `declares_iff`: the namespace that such a file declares is the one of its model.
* `Preorder.unique`: a depth-first walk has one order.
* `Preorder.mem_iff`: a depth-first walk from the root lists the files that can be reached.
-/

namespace InterfaceLang

namespace SourceUnit

/-- The import directives of a file, a path that is named again left out. -/
def directives (u : SourceUnit) : List Directive :=
  (Directive.extract (Parser.significant u.source)).imports

/-- The paths that the directives of a file mean, in the order of the text. -/
def targets (u : SourceUnit) : List Path :=
  u.directives.map fun d => u.path.target d.path

end SourceUnit

namespace Imports

/-- The files that a resolution may meet. -/
structure Graph where
  disk : Disk
  root : SourceUnit

namespace Graph

/-- The file at a path: the root as it was handed in, any other file from the disk. -/
def unitAt (g : Graph) (p : Path) : Except ReadFailure SourceUnit :=
  if p = g.root.path then .ok g.root
  else (g.disk.read p).map fun text => ⟨p, p.text, text⟩

/-- The paths that the file at `p` imports; a file that cannot be read imports nothing. -/
def targets (g : Graph) (p : Path) : List Path :=
  match g.unitAt p with
  | .ok u => u.targets
  | .error _ => []

/-- The file at `p` imports `q`. -/
def Edge (g : Graph) (p q : Path) : Prop :=
  q ∈ g.targets p

/-- Imports lead from the root to `p`. -/
def Reachable (g : Graph) (p : Path) : Prop :=
  Relation.ReflTransGen g.Edge g.root.path p

/-- The file at `p` can be read and parsed, and `f` is its tree. -/
def HasTree (g : Graph) (p : Path) (f : SourceFile) : Prop :=
  ∃ u, g.unitAt p = .ok u ∧ Parser.parse u.source = .ok f

/-- The file at `p` declares the namespace `ns`. -/
def Declares (g : Graph) (p : Path) (ns : String) : Prop :=
  ∃ f, g.HasTree p f ∧ ∃ d ∈ f.namespaces, d.name.name = ns

/-- What the files that can be reached must be like for a resolution to succeed. -/
structure Resolvable (g : Graph) : Prop where
  wellFormed : ∀ p, g.Reachable p → ∃ f, g.HasTree p f ∧ f.namespaces.length ≤ 1
  acyclic : ∀ p, g.Reachable p → ¬Relation.TransGen g.Edge p p
  distinct : ∀ p q ns, g.Reachable p → g.Reachable q → ns ≠ "" →
    g.Declares p ns → g.Declares q ns → p = q

/-- A depth-first walk: `Preorder g seen pending order` holds if a walk that has seen some nodes
and is still to visit the pending ones meets new nodes in the given order. A node is listed when it
is met first, and its imports come before all that is still pending. -/
inductive Preorder (g : Graph) : List Path → List Path → List Path → Prop
  | done (seen : List Path) : Preorder g seen [] []
  | skip {seen pending order : List Path} {p : Path} :
      p ∈ seen → Preorder g seen pending order → Preorder g seen (p :: pending) order
  | visit {seen pending order : List Path} {p : Path} :
      p ∉ seen → Preorder g (seen ++ [p]) (g.targets p ++ pending) order →
      Preorder g seen (p :: pending) (p :: order)

/-- The model of the file at `p` by itself, if the file can be read, parsed and lowered. -/
def lowered? (g : Graph) (p : Path) : Option Model := do
  let u ← (g.unitAt p).toOption
  let f ← (Parser.parse u.source).toOption
  (f.toModel u.text).toOption

end Graph

end Imports

/-! ## Lowering one file -/

/-- The imports of a parsed file are the directives taken out of its significant tokens. -/
theorem Parser.imports_of_parse {source : SourceText} {f : SourceFile}
    (h : Parser.parse source = .ok f) :
    f.imports = (Directive.extract (Parser.significant source)).imports := by
  unfold Parser.parse at h
  cases hp : Parser.ofSource source with
  | error e =>
    rw [hp] at h
    cases h
  | ok p =>
    rw [hp] at h
    have himports : p.imports = (Directive.extract (Parser.significant source)).imports := by
      unfold Parser.ofSource at hp
      split at hp <;> cases hp
      rfl
    rw [← himports]
    change p.readRest.1 = .ok f at h
    unfold Parser.readRest at h
    split at h <;> cases h
    rfl

namespace SourceFile

/-- Lowering refuses nothing but a second namespace declaration. -/
theorem toModel_eq_ok_iff {f : SourceFile} (text : String) :
    (∃ m, f.toModel text = .ok m) ↔ f.namespaces.length ≤ 1 := by
  unfold toModel namespaceDecl?
  match f.namespaces with
  | [] => simp [bind, Except.bind, pure, Except.pure]
  | [d] => simp [bind, Except.bind, pure, Except.pure]
  | d :: e :: ds => simp [bind, Except.bind]

/-- The namespace of a model, if there is one, is the one that its file declares. -/
theorem rootNs_toModel {f : SourceFile} {text ns : String} {m : Model}
    (h : f.toModel text = .ok m) (hns : ns ≠ "") :
    m.rootNs = ns ↔ ∃ d ∈ f.namespaces, d.name.name = ns := by
  unfold toModel namespaceDecl? at h
  match hf : f.namespaces with
  | [] =>
    rw [hf] at h
    cases h
    simpa using hns.symm
  | [d] =>
    rw [hf] at h
    cases h
    simp
  | d :: e :: ds =>
    rw [hf] at h
    cases h

end SourceFile

namespace SourceUnit

/-- A file that loads has been parsed and lowered, and its directives come along. -/
theorem load_eq_ok {u : SourceUnit} {m : Model} {ds : List Directive} {es : List Event}
    (h : u.load = (.ok (m, ds), es)) :
    ds = u.directives ∧ ∃ f, Parser.parse u.source = .ok f ∧ f.toModel u.text = .ok m := by
  unfold load at h
  cases hp : Parser.ofSource u.source with
  | error e =>
    rw [hp] at h
    cases h
  | ok p =>
    rw [hp] at h
    have hparse : Parser.parse u.source = p.readRest.1 := by
      unfold Parser.parse
      rw [hp]
      rfl
    cases hr : p.readRest.1 with
    | error e =>
      simp only [hr] at h
      cases h
    | ok f =>
      rw [hr] at hparse
      simp only [hr] at h
      cases hm : f.toModel u.text with
      | error e =>
        rw [hm] at h
        cases h
      | ok m' =>
        rw [hm] at h
        cases h
        exact ⟨Parser.imports_of_parse hparse, f, hparse, hm⟩

/-- A file that does not load but has a tree cannot be lowered. -/
theorem load_eq_error {u : SourceUnit} {e : Failure} {es : List Event}
    (h : u.load = (.error e, es)) {f : SourceFile} (hparse : Parser.parse u.source = .ok f)
    {m : Model} : f.toModel u.text ≠ .ok m := by
  intro hm
  unfold Parser.parse at hparse
  unfold load at h
  cases hp : Parser.ofSource u.source with
  | error e =>
    rw [hp] at hparse
    cases hparse
  | ok p =>
    rw [hp] at hparse h
    change p.readRest.1 = .ok f at hparse
    simp only [hparse, hm] at h
    cases h

/-- A file by itself can only declare too many namespaces. -/
theorem eq_of_load_error {u : SourceUnit} {e : ImportError} {es : List Event}
    (h : u.load = (.error (.ofImport e), es)) :
    ∃ file spot, e = .multipleNamespaces file spot := by
  unfold load at h
  split at h
  · cases h
  · split at h
    · cases h
    · split at h
      · next hmodel =>
        cases h
        unfold SourceFile.toModel SourceFile.namespaceDecl? at hmodel
        split at hmodel <;> cases hmodel
        exact ⟨_, _, rfl⟩
      · cases h

end SourceUnit

namespace Imports.Graph

variable {g : Graph} {p q : Path}

theorem unitAt_root (g : Graph) : g.unitAt g.root.path = .ok g.root :=
  if_pos rfl

/-- Away from the root, a file is the one that the disk has under its path. -/
theorem unitAt_of_read {text : String} (hp : p ≠ g.root.path) (h : g.disk.read p = .ok text) :
    g.unitAt p = .ok ⟨p, p.text, text⟩ := by
  rw [unitAt, if_neg hp, h]
  rfl

theorem unitAt_of_read_error {cause : ReadFailure} (hp : p ≠ g.root.path)
    (h : g.disk.read p = .error cause) : g.unitAt p = .error cause := by
  rw [unitAt, if_neg hp, h]
  rfl

/-- The file at a path is the root, or it has been read from the disk. -/
theorem unitAt_cases {u : SourceUnit} (h : g.unitAt p = .ok u) :
    (p = g.root.path ∧ u = g.root) ∨
      (p ≠ g.root.path ∧ ∃ text, g.disk.read p = .ok text ∧ u = ⟨p, p.text, text⟩) := by
  unfold unitAt at h
  split at h
  · next hp =>
    cases h
    exact .inl ⟨hp, rfl⟩
  · next hp =>
    cases hread : g.disk.read p with
    | error e =>
      rw [hread] at h
      cases h
    | ok text =>
      rw [hread] at h
      cases h
      exact .inr ⟨hp, text, rfl, rfl⟩

theorem targets_eq {u : SourceUnit} (h : g.unitAt p = .ok u) : g.targets p = u.targets := by
  rw [targets, h]

/-- A file has a model exactly if it can be read, parsed and lowered. -/
theorem lowered?_eq_some_iff {m : Model} :
    g.lowered? p = some m ↔
      ∃ u f, g.unitAt p = .ok u ∧ Parser.parse u.source = .ok f ∧ f.toModel u.text = .ok m := by
  unfold lowered?
  cases hu : g.unitAt p with
  | error e => simp [Except.toOption]
  | ok u =>
    cases hf : Parser.parse u.source with
    | error e => simp [Except.toOption, hf]
    | ok f => cases hm : f.toModel u.text <;> simp [Except.toOption, hf, hm]

/-- A file has a model exactly if it has a tree with at most one namespace declaration. -/
theorem exists_lowered?_iff :
    (∃ m, g.lowered? p = some m) ↔ ∃ f, g.HasTree p f ∧ f.namespaces.length ≤ 1 := by
  constructor
  · rintro ⟨m, h⟩
    obtain ⟨u, f, hu, hf, hm⟩ := lowered?_eq_some_iff.1 h
    exact ⟨f, ⟨u, hu, hf⟩, (SourceFile.toModel_eq_ok_iff u.text).1 ⟨m, hm⟩⟩
  · rintro ⟨f, ⟨u, hu, hf⟩, hlen⟩
    obtain ⟨m, hm⟩ := (SourceFile.toModel_eq_ok_iff u.text).2 hlen
    exact ⟨m, lowered?_eq_some_iff.2 ⟨u, f, hu, hf, hm⟩⟩

/-- The namespace that a file declares is the root namespace of its model. -/
theorem declares_iff {m : Model} {ns : String} (h : g.lowered? p = some m) (hns : ns ≠ "") :
    g.Declares p ns ↔ m.rootNs = ns := by
  obtain ⟨u, f, hu, hf, hm⟩ := lowered?_eq_some_iff.1 h
  rw [SourceFile.rootNs_toModel hm hns]
  constructor
  · rintro ⟨f', ⟨u', hu', hf'⟩, hd⟩
    rw [hu] at hu'
    cases hu'
    rw [hf] at hf'
    cases hf'
    exact hd
  · intro hd
    exact ⟨f, ⟨u, hu, hf⟩, hd⟩

/-! ## Reachability -/

/-- Imports lead to paths in normal form. -/
theorem isNormalForm_of_edge (h : g.Edge p q) : q.IsNormalForm := by
  unfold Edge targets at h
  split at h
  · obtain ⟨d, _, rfl⟩ := List.mem_map.1 h
    exact Path.isNormalForm_target _ _
  · cases h

theorem Reachable.isNormalForm (hroot : g.root.path.IsNormalForm) (h : g.Reachable p) :
    p.IsNormalForm := by
  cases h with
  | refl => exact hroot
  | tail _ hedge => exact isNormalForm_of_edge hedge

/-! ## Depth-first walks -/

namespace Preorder

variable {seen pending order : List Path}

/-- Walks from two lists of pending files, one after the other, are a walk from both. -/
theorem append {pending' order' : List Path} (h : g.Preorder seen pending order)
    (h' : g.Preorder (seen ++ order) pending' order') :
    g.Preorder seen (pending ++ pending') (order ++ order') := by
  induction h with
  | done seen => simpa using h'
  | skip hp _ ih => exact .skip hp (ih h')
  | visit hp _ ih =>
    rw [List.append_cons] at h'
    have hrest := ih h'
    rw [List.append_assoc] at hrest
    exact .visit hp hrest

/-- What has been seen and what is pending determine the walk. -/
theorem unique {order' : List Path} (h : g.Preorder seen pending order)
    (h' : g.Preorder seen pending order') : order = order' := by
  -- whether the next file is skipped or visited is decided by what has been seen
  induction h generalizing order' with
  | done =>
    cases h'
    rfl
  | skip hp _ ih =>
    cases h' with
    | skip _ h' => exact ih h'
    | visit hp' _ => exact absurd hp hp'
  | visit hp _ ih =>
    cases h' with
    | skip hp' _ => exact absurd hp' hp
    | visit _ h' => rw [ih h']

/-- A walk visits no file that had been seen before. -/
theorem not_mem_seen (h : g.Preorder seen pending order) (hp : p ∈ order) : p ∉ seen := by
  induction h with
  | done => cases hp
  | skip _ _ ih => exact ih hp
  | visit hq _ ih =>
    rcases List.mem_cons.1 hp with rfl | hp
    · exact hq
    · exact fun hseen => ih hp (List.mem_append_left _ hseen)

/-- A walk visits no file twice. -/
theorem nodup (h : g.Preorder seen pending order) : order.Nodup := by
  induction h with
  | done => exact .nil
  | skip _ _ ih => exact ih
  | visit _ hrest ih =>
    exact List.nodup_cons.2 ⟨fun hp => hrest.not_mem_seen hp (by simp), ih⟩

/-- Every visited file can be reached from one of the pending files. -/
theorem reaches (h : g.Preorder seen pending order) (hp : p ∈ order) :
    ∃ q ∈ pending, Relation.ReflTransGen g.Edge q p := by
  induction h with
  | done => cases hp
  | skip _ _ ih =>
    obtain ⟨q, hq, hqp⟩ := ih hp
    exact ⟨q, List.mem_cons_of_mem _ hq, hqp⟩
  | @visit seen pending order q _ _ ih =>
    rcases List.mem_cons.1 hp with rfl | hp
    · exact ⟨p, List.mem_cons_self, .refl⟩
    · obtain ⟨r, hr, hrp⟩ := ih hp
      rcases List.mem_append.1 hr with hr | hr
      · exact ⟨q, List.mem_cons_self, .head hr hrp⟩
      · exact ⟨r, List.mem_cons_of_mem _ hr, hrp⟩

theorem pending_subset (h : g.Preorder seen pending order) : pending ⊆ seen ++ order := by
  induction h with
  | done => exact List.nil_subset _
  | skip hp _ ih => exact List.cons_subset.2 ⟨List.mem_append_left _ hp, ih⟩
  | visit _ _ ih =>
    rw [List.append_assoc] at ih
    exact List.cons_subset.2 ⟨by simp, fun q hq => ih (List.mem_append_right _ hq)⟩

/-- The imports of a visited file have been seen or are visited. -/
theorem targets_subset (h : g.Preorder seen pending order) (hp : p ∈ order) :
    g.targets p ⊆ seen ++ order := by
  induction h with
  | done => cases hp
  | skip _ _ ih => exact ih hp
  | visit _ hrest ih =>
    rw [List.append_cons]
    rcases List.mem_cons.1 hp with rfl | hp
    · exact fun q hq => hrest.pending_subset (List.mem_append_left _ hq)
    · exact ih hp

/-- A walk that starts at the root lists exactly the files that can be reached. -/
theorem mem_iff (h : g.Preorder [] [g.root.path] order) : p ∈ order ↔ g.Reachable p := by
  constructor
  · intro hp
    obtain ⟨q, hq, hqp⟩ := h.reaches hp
    rw [List.mem_singleton.1 hq] at hqp
    exact hqp
  · intro hp
    induction hp with
    | refl => exact h.pending_subset List.mem_cons_self
    | tail _ hedge ih => exact h.targets_subset ih hedge

end Preorder

end Imports.Graph

end InterfaceLang
