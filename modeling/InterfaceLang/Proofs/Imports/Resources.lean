import Mathlib.Data.Set.Card
import InterfaceLang.Proofs.Imports.Invariant

/-!
# What a resolution costs

Wherever finitely many paths in normal form can be read, imports can be followed, in cycles or not.
No file is resolved twice and no text is read twice, since a file counts as included from the moment
its imports are followed. The files that are being resolved at one moment are the files on the chain
and at most one more; all but the root have been read, so there is at most one more of them than
there are paths to read.

Results:
* `Disk.exists_of_finite`: a file system with finitely many readable paths is a disk.
* `resolve_bounded`: each path is resolved and read at most once, and the depth of the recursion is
  at most one more than the number of readable paths.
-/

namespace InterfaceLang

/-- The paths in normal form at which there is a text. -/
def readablePaths (read : Path → Except ReadFailure String) : Set Path :=
  {p | p.IsNormalForm ∧ (read p).isOk = true}

/-- A file system with finitely many readable paths is a disk. -/
theorem Disk.exists_of_finite {read : Path → Except ReadFailure String}
    (workingDir : Except ReadFailure Path) (h : (readablePaths read).Finite) :
    ∃ disk : Disk, disk.read = read ∧ disk.workingDir = workingDir := by
  have hlisted : ∀ (p : Path) (text : String), read p.normalize = .ok text →
      p.normalize.components ∈ h.toFinset.toList.map (·.components) := by
    intro p text hread
    refine List.mem_map.2 ⟨p.normalize, ?_, rfl⟩
    rw [Finset.mem_toList, Set.Finite.mem_toFinset]
    exact ⟨Path.normalize_normalize p, by rw [hread]; rfl⟩
  exact ⟨⟨read, workingDir, _, hlisted⟩, rfl, rfl⟩

/-- On a disk finitely many paths can be read. -/
theorem Disk.finite_readablePaths (disk : Disk) : (readablePaths disk.read).Finite := by
  refine .of_injOn (t := {cs | cs ∈ disk.readable}) (f := Path.components) ?_ ?_
    (List.finite_toSet _)
  · rintro p ⟨hp, hread⟩
    cases htext : disk.read p with
    | error cause =>
      rw [htext] at hread
      cases hread
    | ok text =>
      have hmem := disk.mem_readable p text (by rwa [hp])
      rwa [hp] at hmem
  · intro p hp q hq heq
    exact (Path.same_iff_eq hp.1 hq.1).1 (by simpa [Path.same] using heq)

namespace Imports

variable {disk : Disk} {g : Graph} {depth : Nat} {chain : List Path} {u : SourceUnit}
  {st : Progress}

/-! ## Depth -/

/-- A list without repetitions is no longer than a finite set that holds its members. -/
theorem length_le_ncard {ps : List Path} {s : Set Path} (hs : s.Finite) (hnodup : ps.Nodup)
    (hps : ∀ p ∈ ps, p ∈ s) : ps.length ≤ s.ncard := by
  rw [← List.toFinset_card_of_nodup hnodup, ← Set.ncard_coe_finset]
  exact Set.ncard_le_ncard (by simpa [Set.subset_def] using hps) hs

/-- A chain of distinct paths, of which all but the root can be read. -/
theorem length_le_of_read {ps : List Path} (root : Path)
    (hfinite : (readablePaths disk.read).Finite) (hnodup : ps.Nodup)
    (hnormal : ∀ p ∈ ps, p.IsNormalForm) (hread : ∀ p ∈ ps, p ≠ root → readable disk p = true) :
    ps.length ≤ 1 + (readablePaths disk.read).ncard := by
  have hmem : ∀ p ∈ ps, p ∈ insert root (readablePaths disk.read) := by
    intro p hp
    by_cases hroot : p = root
    · exact Set.mem_insert_iff.2 (.inl hroot)
    · exact Set.mem_insert_of_mem _ ⟨hnormal p hp, hread p hp hroot⟩
  have hlength := length_le_ncard (hfinite.insert root) hnodup hmem
  have hinsert := Set.ncard_insert_le root (readablePaths disk.read)
  omega

/-- The chain below the root consists of distinct readable files, and the depth is its length. -/
theorem ImportsReady.depth_le {imports : List Directive} {m : Model}
    (h : ImportsReady g depth chain u imports m st)
    (hfinite : (readablePaths g.disk.read).Finite) :
    depth ≤ 1 + (readablePaths g.disk.read).ncard := by
  rw [h.depth_eq]
  exact length_le_of_read g.root.path hfinite h.nodup
    (fun p hp => h.consistent.normal p (h.consistent.chain_subset hp)) h.read

theorem FileReady.depth_le (h : FileReady g depth chain u st) (hroot : g.root.path.IsNormalForm)
    (hfinite : (readablePaths g.disk.read).Finite) :
    depth ≤ 1 + (readablePaths g.disk.read).ncard := by
  have hoff : u.path ∉ chain := fun hmem => h.new (h.consistent.chain_subset hmem)
  have hlength : (u.path :: chain).length ≤ 1 + (readablePaths g.disk.read).ncard := by
    refine length_le_of_read g.root.path hfinite (List.nodup_cons.2 ⟨hoff, h.nodup⟩) ?_ ?_
    · refine List.forall_mem_cons.2 ⟨?_, ?_⟩
      · exact (h.trail.reachable (by simp)).isNormalForm hroot
      · exact fun p hp => h.consistent.normal p (h.consistent.chain_subset hp)
    · exact List.forall_mem_cons.2 ⟨readable_of_unitAt h.unit, h.read⟩
  rw [h.depth_eq]
  exact hlength

/-! ## Moments of a root's resolution -/

variable {baseDir : Option Path} {name text : String}

theorem depth_le_of_mem_trace {mo : Moment} (hfinite : (readablePaths disk.read).Finite)
    (h : mo ∈ (trace disk baseDir name text).1) :
    mo.depth ≤ 1 + (readablePaths disk.read).ncard := by
  obtain ⟨path, hpath, hwithin⟩ := within_of_mem_trace h
  have hroot := isNormalForm_of_locate hpath
  -- the moment lies in a call that is ready, and its depth is the length of the chain there
  cases hwithin with
  | resolve hfile => exact hfile.depth_le hroot hfinite
  | examine himports => exact himports.depth_le hfinite
  | read himports => exact himports.depth_le hfinite
  | merge hfile _ =>
    have hdepth := hfile.depth_le hroot hfinite
    exact Nat.le_of_succ_le hdepth

/-- Paths of different files have different components. -/
theorem nodup_components {ps : List Path} (h : ps.Pairwise fun p q => ¬p.same q = true) :
    (ps.map (·.components)).Nodup := by
  rw [List.Nodup, List.pairwise_map]
  exact h.imp fun hne heq => hne (by simpa [Path.same] using heq)

/-- What a resolution costs where `n` paths can be read. -/
structure Bounded (n : Nat) (ms : List Moment) : Prop where
  /-- Files are told apart by the components of their paths. -/
  resolved : ((resolvedPaths ms).map (·.components)).Nodup
  read : ((readPaths ms).map (·.components)).Nodup
  normal : ∀ p ∈ resolvedPaths ms ++ readPaths ms, p.IsNormalForm
  files : (resolvedPaths ms).length ≤ 1 + n
  depth : ∀ mo ∈ ms, mo.depth ≤ 1 + n

/-- The files that are resolved are the root, which is not read, and those that are read. -/
theorem paths_of_locate {path : Path} (text : String)
    (h : locate disk baseDir ⟨name⟩ = .ok path) :
    ∃ reads, readPaths (trace disk baseDir name text).1 = reads ∧
      resolvedPaths (trace disk baseDir name text).1 = path :: reads.filter (readable disk) ∧
      (∀ p ∈ reads, p.IsNormalForm) ∧
      (path :: reads).Pairwise fun p q => ¬p.same q = true := by
  obtain ⟨ms, hms, hcourse, _⟩ := (course_of_resolve disk).1 [] ⟨path, name, text⟩ .start 1
  rw [moments_of_locate_ok h, hms]
  refine ⟨readPaths ms, rfl, ?_, hcourse.normal, List.pairwise_cons.2 ⟨?_, hcourse.distinct⟩⟩
  · exact congrArg (path :: ·) hcourse.resolved
  · intro p hp hsame
    refine hcourse.fresh p hp (includes_of_same ?_ (includes_addFile _ path))
    simpa [Path.same, eq_comm] using hsame

/-- The bounds hold for a disk on which finitely many paths can be read. -/
theorem bounded_of_finite (hfinite : (readablePaths disk.read).Finite) :
    Bounded (readablePaths disk.read).ncard (trace disk baseDir name text).1 := by
  cases hpath : locate disk baseDir ⟨name⟩ with
  | error e =>
    rw [moments_of_locate_error hpath]
    exact ⟨.nil, .nil, by simp [resolvedPaths, readPaths], by simp [resolvedPaths], by simp⟩
  | ok path =>
    obtain ⟨reads, hreads, hresolved, hnormal, hdistinct⟩ := paths_of_locate text hpath
    have hroot := isNormalForm_of_locate hpath
    have hfilter : ∀ p ∈ reads.filter (readable disk), p ∈ readablePaths disk.read := by
      intro p hp
      obtain ⟨hmem, hread⟩ := List.mem_filter.1 hp
      exact ⟨hnormal p hmem, hread⟩
    have hpairwise : (path :: reads.filter (readable disk)).Pairwise fun p q => ¬p.same q = true :=
      hdistinct.sublist (List.filter_sublist.cons_cons path)
    have hnodup : (reads.filter (readable disk)).Nodup :=
      (nodup_components hpairwise.tail).of_map _
    refine ⟨?resolved, ?read, ?normal, ?files, fun mo hmo => depth_le_of_mem_trace hfinite hmo⟩
    case resolved =>
      rw [hresolved]
      exact nodup_components hpairwise
    case read =>
      rw [hreads]
      exact nodup_components hdistinct.tail
    case normal =>
      rw [hresolved, hreads]
      simp only [List.cons_append, List.forall_mem_cons, List.forall_mem_append]
      exact ⟨hroot, fun p hp => (hfilter p hp).1, hnormal⟩
    case files =>
      have hlength := length_le_ncard hfinite hnodup hfilter
      rw [hresolved, List.length_cons]
      omega

/-- Wherever finitely many paths can be read, a resolution comes to an end, however the files import
each other: each path is resolved and read at most once, and at most one more file is being resolved
at a time than there are paths to read. -/
theorem resolve_bounded (read : Path → Except ReadFailure String)
    (workingDir : Except ReadFailure Path) (hfinite : (readablePaths read).Finite)
    (baseDir : Option Path) (name text : String) :
    (∃ disk : Disk, disk.read = read ∧ disk.workingDir = workingDir) ∧
      ∀ disk : Disk, disk.read = read → disk.workingDir = workingDir →
        (trace disk baseDir name text).2 = resolve disk baseDir name text ∧
        Bounded (readablePaths read).ncard (trace disk baseDir name text).1 := by
  refine ⟨Disk.exists_of_finite workingDir hfinite, ?_⟩
  rintro disk rfl _
  exact ⟨trace_snd .., bounded_of_finite hfinite⟩

/-- A root that imports a file which imports the root. -/
theorem resolvedPaths_of_mutual_imports {path p : Path} {m m' : Model} {d d' : Directive}
    {rest rest' : List Directive} {text' : String} (hlocate : locate disk baseDir ⟨name⟩ = .ok path)
    (hload : (⟨path, name, text⟩ : SourceUnit).load.1.toOption = some (m, d :: rest))
    (htarget : path.target d.path = p) (hsame : ¬path.same p = true)
    (hread : disk.read p = .ok text')
    (hsub : (⟨p, p.text, text'⟩ : SourceUnit).load.1.toOption = some (m', d' :: rest'))
    (hback : p.target d'.path = path) :
    resolvedPaths (trace disk baseDir name text).1 = [path, p] := by
  obtain ⟨es, hload⟩ := load_of_toOption hload
  obtain ⟨es', hsub⟩ := load_of_toOption hsub
  have hoff : ¬onChain [path] p = true := by simpa [onChain] using hsame
  have hnew :
      ¬((Progress.start.log (.resolving path.text :: es)).addFile path).registry.includes p =
        true := by
    simpa [Registry.addFile, Registry.includes, Registry.empty, Progress.start, Progress.addFile,
      Progress.log] using hsame
  have hcycle : onChain ([path] ++ [p]) (p.target d'.path) = true := by
    simp [onChain, hback, Path.same]
  have hfile : ∃ f st', resolveFile disk [path] ⟨p, p.text, text'⟩
      (((Progress.start.log (.resolving path.text :: es)).addFile path).log
        [.importing path.text p.text]) = (.error f, st') := by
    rw [resolveFile_of_load_ok hsub, resolveImports_of_onChain (u := ⟨p, p.text, text'⟩) hcycle]
    exact ⟨_, _, rfl⟩
  obtain ⟨f, st, hfile⟩ := hfile
  rw [moments_of_locate_ok hlocate, moments_of_load_ok hload, List.nil_append,
    moments_of_file_error (u := ⟨path, name, text⟩) htarget hoff hnew hread hfile,
    moments_of_load_ok hsub, moments_of_onChain (u := ⟨p, p.text, text'⟩) hcycle]
  rfl

/-- Two files that import each other: both are resolved, and then the cycle is found. -/
theorem resolve_bounded_of_mutual_imports :
    resolvedPaths (trace (FileTree.toDisk ⟨[(["a"], .file "import \"b\"".toUTF8),
        (["b"], .file "import \"a\"".toUTF8)], .present []⟩) none "/a" "import \"b\"").1 =
      [⟨"/a"⟩, ⟨"/b"⟩] ∧
    Bounded (readablePaths (FileTree.read ⟨[(["a"], .file "import \"b\"".toUTF8),
        (["b"], .file "import \"a\"".toUTF8)], .present []⟩)).ncard
      (trace (FileTree.toDisk ⟨[(["a"], .file "import \"b\"".toUTF8),
        (["b"], .file "import \"a\"".toUTF8)], .present []⟩) none "/a" "import \"b\"").1 := by
  have hread : (FileTree.toDisk ⟨[(["a"], .file "import \"b\"".toUTF8),
      (["b"], .file "import \"a\"".toUTF8)], .present []⟩).read ⟨"/b"⟩ = .ok "import \"a\"" := by
    decide +kernel
  have hload : (⟨⟨"/a"⟩, "/a", "import \"b\""⟩ : SourceUnit).load.1.toOption =
      some (⟨"/a", "", [], [], []⟩, [⟨"b", ⟨"/a", 1, 1, 0⟩, 10⟩]) := by
    decide +kernel
  have hsub : (⟨⟨"/b"⟩, "/b", "import \"a\""⟩ : SourceUnit).load.1.toOption =
      some (⟨"/b", "", [], [], []⟩, [⟨"a", ⟨"/b", 1, 1, 0⟩, 10⟩]) := by
    decide +kernel
  refine ⟨?_, ((resolve_bounded _ _ (Disk.finite_readablePaths (FileTree.toDisk _)) none "/a"
    "import \"b\"").2 _ rfl rfl).2⟩
  exact resolvedPaths_of_mutual_imports rfl hload (by decide +kernel) (by decide +kernel) hread hsub
    (by decide +kernel)

end Imports

end InterfaceLang
