import InterfaceLang.Proofs.Imports.Trace

/-!
# What holds while imports are followed

Every call of a resolution finds chain and registry in the same order: the files on the chain lead
from the root to the file at hand, and every other file that is included has been dealt with. A call
hands this on to the calls it makes (`handedOn`), so it holds at every moment.

Results:
* `handedOn`: what a call is made with, it makes calls with.
* `in_order_when_examining`: when an import directive is examined, chain and registry are in order,
  and a namespace has kept its owner since the moment it was claimed.
-/

namespace InterfaceLang.Imports

/-- A call for a file that is met for the first time and that the chain leads to. -/
structure FileReady (g : Graph) (depth : Nat) (chain : List Path) (u : SourceUnit)
    (st : Progress) : Prop where
  unit : g.unitAt u.path = .ok u
  trail : Trail g (chain ++ [u.path])
  new : u.path ∉ st.registry.included
  consistent : Consistent g chain st.registry
  nodup : chain.Nodup
  depth_eq : depth = chain.length + 1
  /-- All files on the chain but the root come from the disk. -/
  read : ∀ p ∈ chain, p ≠ g.root.path → readable g.disk p = true

/-- A call for some of the imports of the last file on the chain. -/
structure ImportsReady (g : Graph) (depth : Nat) (chain : List Path) (u : SourceUnit)
    (imports : List Directive) (_m : Model) (st : Progress) : Prop where
  unit : g.unitAt u.path = .ok u
  directives : imports ⊆ u.directives
  trail : Trail g chain
  last : chain.getLast? = some u.path
  consistent : Consistent g chain st.registry
  nodup : chain.Nodup
  depth_eq : depth = chain.length
  read : ∀ p ∈ chain, p ≠ g.root.path → readable g.disk p = true

section Calls

variable {g : Graph} {depth : Nat} {chain : List Path} {u : SourceUnit} {st : Progress} {m : Model}
  {d : Directive} {rest : List Directive} {p : Path}

/-- Away from the root, a file that the graph has is one that the disk can read. -/
theorem readable_of_unitAt (h : g.unitAt p = .ok u) (hp : p ≠ g.root.path) :
    readable g.disk p = true := by
  rcases Graph.unitAt_cases h with ⟨hroot, _⟩ | ⟨_, text, hread, _⟩
  · exact absurd hroot hp
  · rw [readable, hread]
    rfl

namespace FileReady

/-- The root is ready to be resolved when nothing has been done yet. -/
theorem root (g : Graph) : FileReady g 1 [] g.root .start where
  unit := Graph.unitAt_root g
  trail := ⟨.singleton _, rfl⟩
  new := by simp [Progress.start, Registry.empty]
  consistent := .empty g
  nodup := .nil
  depth_eq := rfl
  read := by simp

/-- A file enters the chain when its imports are to be followed. -/
theorem enter {imports : List Directive} {es : List Event} (h : FileReady g depth chain u st)
    (hroot : g.root.path.IsNormalForm) (hload : u.load = (.ok (m, imports), es)) :
    ImportsReady g depth (chain ++ [u.path]) u imports m
      ((st.log (.resolving u.path.text :: es)).addFile u.path) where
  unit := h.unit
  directives := by
    rw [(lowered?_of_load h.unit hload).2]
    exact List.Subset.refl _
  trail := h.trail
  last := by simp
  consistent := by
    have hreach : g.Reachable u.path := h.trail.reachable (by simp)
    exact h.consistent.enter (hreach.isNormalForm hroot) hreach h.new
  nodup := by
    have hoff : u.path ∉ chain := fun hmem => h.new (h.consistent.chain_subset hmem)
    simpa [List.nodup_append] using ⟨h.nodup, fun p hp heq => hoff (heq ▸ hp)⟩
  depth_eq := by rw [h.depth_eq, List.length_append, List.length_singleton]
  read := by
    intro p hp hne
    rcases List.mem_append.1 hp with hp | hp
    · exact h.read p hp hne
    · rw [List.mem_singleton.1 hp] at hne ⊢
      exact readable_of_unitAt h.unit hne

/-- A file that has been resolved leaves a registry that is consistent with the same chain. -/
theorem done {sub : Model} {st' : Progress} (h : FileReady g depth chain u st)
    (hroot : g.root.path.IsNormalForm)
    (hfile : resolveFile g.disk chain u st = (.ok sub, st')) :
    ∃ visited, FileDone g chain st.registry st'.registry u.path sub visited := by
  rcases (resolve_spec g hroot).1 chain u st h.unit h.trail h.new h.consistent with
    ⟨m, st'', visited, hok, hdone⟩ | ⟨e, st'', herror, _⟩
  · rw [hfile] at hok
    cases hok
    exact ⟨visited, hdone⟩
  · rw [hfile] at herror
    cases herror

end FileReady

namespace ImportsReady

/-- What is left of the imports is ready once the first one has been dealt with. -/
theorem tail {st' : Progress} {m' : Model} (h : ImportsReady g depth chain u (d :: rest) m st)
    (hst : Consistent g chain st'.registry) : ImportsReady g depth chain u rest m' st' :=
  { h with directives := (List.cons_subset.1 h.directives).2, consistent := hst }

/-- An import that is met for the first time and can be read is ready to be resolved, one level
deeper. -/
theorem visit {text : String} (h : ImportsReady g depth chain u (d :: rest) m st)
    (htarget : u.path.target d.path = p) (hchain : ¬onChain chain p = true)
    (hinc : ¬st.registry.includes p = true) (hread : g.disk.read p = .ok text) :
    FileReady g (depth + 1) chain ⟨p, p.text, text⟩ (st.log [.importing u.path.text p.text]) := by
  have hp : p.IsNormalForm := htarget ▸ Path.isNormalForm_target u.path d.path
  have hedge : g.Edge u.path p :=
    htarget ▸ edge_of_mem_directives h.unit (h.directives List.mem_cons_self)
  have hoff : p ∉ chain := fun hmem => hchain ((h.consistent.onChain_iff hp).2 hmem)
  have hne : p ≠ g.root.path := fun heq => hoff (heq ▸ h.trail.root_mem)
  exact {
    unit := Graph.unitAt_of_read hne hread
    trail := h.trail.concat h.last hedge
    new := fun hmem => hinc ((h.consistent.includes_iff hp).2 hmem)
    consistent := h.consistent
    nodup := h.nodup
    depth_eq := by rw [h.depth_eq]
    read := h.read }

end ImportsReady

/-- Every call is made with chain and registry in order. -/
theorem handedOn (g : Graph) (hroot : g.root.path.IsNormalForm) :
    HandedOn g.disk (FileReady g) (ImportsReady g) where
  enter := fun hfile hload => hfile.enter hroot hload
  skip := fun himports _ _ => himports.tail himports.consistent
  visit := fun himports htarget hchain hinc hread => himports.visit htarget hchain hinc hread
  next := by
    intro depth chain u d rest m st text p sub st' himports htarget hchain hinc hread hfile
    obtain ⟨_, hdone⟩ := (himports.visit htarget hchain hinc hread).done hroot hfile
    exact himports.tail hdone.consistent

end Calls

/-! ## Moments of a root's resolution -/

variable {disk : Disk} {baseDir : Option Path} {name text : String}

/-- Every moment of a resolution lies in a call that is made with chain and registry in order. -/
theorem within_of_mem_trace {mo : Moment} (h : mo ∈ (trace disk baseDir name text).1) :
    ∃ path, locate disk baseDir ⟨name⟩ = .ok path ∧
      mo.Within disk (FileReady ⟨disk, ⟨path, name, text⟩⟩)
        (ImportsReady ⟨disk, ⟨path, name, text⟩⟩) := by
  cases hpath : locate disk baseDir ⟨name⟩ with
  | error e =>
    rw [moments_of_locate_error hpath] at h
    cases h
  | ok path =>
    rw [moments_of_locate_ok hpath] at h
    have hroot : path.IsNormalForm := isNormalForm_of_locate hpath
    exact ⟨path, rfl, (handedOn ⟨disk, ⟨path, name, text⟩⟩ hroot).moments.1 [] _ .start 1
      (FileReady.root _) mo h⟩

/-- Registries only grow along a resolution. -/
theorem later_of_trace (disk : Disk) (baseDir : Option Path) (name text : String) :
    (trace disk baseDir name text).1.Pairwise fun a b => Later a.registry b.registry := by
  cases hpath : locate disk baseDir ⟨name⟩ with
  | error e =>
    rw [moments_of_locate_error hpath]
    exact .nil
  | ok path =>
    rw [moments_of_locate_ok hpath]
    obtain ⟨ms, hms, hcourse, _⟩ := (course_of_resolve disk).1 [] ⟨path, name, text⟩ .start 1
    rw [hms]
    exact List.pairwise_cons.2
      ⟨fun mo hmo => (later_addFile _ _).trans (hcourse.since mo hmo), hcourse.ordered⟩

/-- Chain and registry while imports are followed: the chain is a path without repetition of
included files; what is included and has left the chain is settled; namespaces are owned by files
that have left the chain, each by another one; and all paths are in normal form. -/
structure Orderly (g : Graph) (chain : List Path) (r : Registry) : Prop where
  nodup : chain.Nodup
  included : chain ⊆ r.included
  settled : ∀ p ∈ r.included, p ∉ chain → Settled g chain r p
  owners : ∀ ns p, r.owner? ns = some p → p ∈ r.included ∧ p ∉ chain
  distinct : ∀ ns ns' p, r.owner? ns = some p → r.owner? ns' = some p → ns = ns'
  normal_chain : ∀ p ∈ chain, p.IsNormalForm
  normal_included : ∀ p ∈ r.included, p.IsNormalForm
  normal_owners : ∀ ns p, r.owner? ns = some p → p.IsNormalForm

/-- A consistent registry and a chain without repetitions are in order. -/
theorem Consistent.orderly {g : Graph} {chain : List Path} {r : Registry}
    (h : Consistent g chain r) (hnodup : chain.Nodup) : Orderly g chain r where
  nodup := hnodup
  included := h.chain_subset
  settled := h.settled
  owners := fun ns p hp => ⟨(h.owners ns p hp).1, (h.owners ns p hp).2.1⟩
  distinct := by
    -- both are the namespace that the file declares
    intro ns ns' p hp hp'
    obtain ⟨_, _, m, hm, rfl⟩ := h.owners ns p hp
    obtain ⟨_, _, m', hm', rfl⟩ := h.owners ns' p hp'
    rw [hm] at hm'
    rw [Option.some.inj hm']
  normal_chain := fun p hp => h.normal p (h.chain_subset hp)
  normal_included := h.normal
  normal_owners := fun ns p hp => h.normal p (h.owners ns p hp).1

/-- Whenever a resolution is about to examine an import directive, chain and registry are in order,
and namespaces that had an owner at an earlier moment still have the same one. -/
theorem in_order_when_examining (disk : Disk) (baseDir : Option Path) (name text : String) :
    (trace disk baseDir name text).2 = resolve disk baseDir name text ∧
      ((trace disk baseDir name text).1.Pairwise fun before after =>
        ∀ ns p, before.registry.owner? ns = some p → after.registry.owner? ns = some p) ∧
      ∀ mo ∈ (trace disk baseDir name text).1, ∀ u d, mo.action = .examine u d →
        ∃ path, locate disk baseDir ⟨name⟩ = .ok path ∧
          Orderly ⟨disk, ⟨path, name, text⟩⟩ mo.chain mo.registry := by
  refine ⟨trace_snd .., (later_of_trace ..).imp fun hlater => hlater.owners, ?_⟩
  intro mo hmo u d haction
  obtain ⟨path, hpath, hwithin⟩ := within_of_mem_trace hmo
  refine ⟨path, hpath, ?_⟩
  cases hwithin with
  | examine himports => exact himports.consistent.orderly himports.nodup
  | _ => cases haction

/-- A second directive is examined when the file that the first one imports owns its namespace. -/
theorem in_order_when_examining_second :
    ∃ mo ∈ (trace (FileTree.toDisk ⟨[(["b"], .file "namespace b enum S { }".toUTF8)], .present []⟩)
        none "/a" "import \"b\" import \"c\"").1,
      (∃ u d, mo.action = .examine u d ∧ d.path = "c") ∧
      mo.chain = [⟨"/a"⟩] ∧ mo.registry = ⟨[("b", ⟨"/b"⟩)], [⟨"/a"⟩, ⟨"/b"⟩]⟩ ∧
      Orderly ⟨FileTree.toDisk ⟨[(["b"], .file "namespace b enum S { }".toUTF8)], .present []⟩,
        ⟨⟨"/a"⟩, "/a", "import \"b\" import \"c\""⟩⟩ mo.chain mo.registry := by
  have hlocate : locate (FileTree.toDisk
      ⟨[(["b"], .file "namespace b enum S { }".toUTF8)], .present []⟩) none ⟨"/a"⟩ = .ok ⟨"/a"⟩ :=
    rfl
  have hload : (⟨⟨"/a"⟩, "/a", "import \"b\" import \"c\""⟩ : SourceUnit).load.1.toOption =
      some (⟨"/a", "", [], [], []⟩,
        [⟨"b", ⟨"/a", 1, 1, 0⟩, 10⟩, ⟨"c", ⟨"/a", 1, 12, 11⟩, 21⟩]) := by
    decide +kernel
  have hread : (FileTree.toDisk
      ⟨[(["b"], .file "namespace b enum S { }".toUTF8)], .present []⟩).read ⟨"/b"⟩ =
        .ok "namespace b enum S { }" := by
    decide +kernel
  have hsub : (⟨⟨"/b"⟩, "/b", "namespace b enum S { }"⟩ : SourceUnit).load.1.toOption =
      some (⟨"/b", "b", [], [], [⟨"S", "b", [], "", ⟨"/b", 1, 13, 12⟩⟩]⟩, []) := by
    decide +kernel
  obtain ⟨es, hmoments⟩ := moments_of_first_import hlocate hload (by decide +kernel)
    (by decide +kernel) hread hsub (by decide)
  have hmem : ∃ mo ∈ (trace (FileTree.toDisk
      ⟨[(["b"], .file "namespace b enum S { }".toUTF8)], .present []⟩) none "/a"
        "import \"b\" import \"c\"").1, mo = ⟨1, [⟨"/a"⟩], ⟨[("b", ⟨"/b"⟩)], [⟨"/a"⟩, ⟨"/b"⟩]⟩,
          .examine ⟨⟨"/a"⟩, "/a", "import \"b\" import \"c\""⟩ ⟨"c", ⟨"/a", 1, 12, 11⟩, 21⟩⟩ := by
    rw [hmoments]
    exact ⟨_, List.mem_append_right _ (mem_moments_cons ..), rfl⟩
  obtain ⟨mo, hmo, rfl⟩ := hmem
  obtain ⟨path, hpath, horderly⟩ := (in_order_when_examining _ _ _ _).2.2 _ hmo _ _ rfl
  cases hpath
  exact ⟨_, hmo, ⟨_, _, rfl, rfl⟩, rfl, rfl, horderly⟩

end InterfaceLang.Imports
