import InterfaceLang.Proofs.Imports.Invariant
import Mathlib.Data.List.Nodup

/-!
# Reported import cycles

A resolution that complains of an import cycle ends at the moment at which it examines the directive
that closes the cycle, and nothing on the way up changes the complaint. At that moment the chain is
in order: it leads from the root to the file of the directive, import by import and without
repetition. What is reported is the part of the chain from the imported file on, so the files that
only lead to the cycle are not named.

Results:
* `closes_of_resolve`: a resolution that reports a cycle ends at a directive that leads back onto
  the chain.
* `ImportsReady.ring`: such a directive closes a ring of files.
* `circularImport_truthful`: a reported import cycle is a simple cycle of the import graph, pointed
  at where it closes.
-/

namespace InterfaceLang.Imports

/-- Files that import each other in a ring: each of them imports the next one, and the last one,
`u`, imports the first one by the directive `d`. -/
structure Graph.Ring (g : Graph) (ring : List Path) (u : SourceUnit) (d : Directive) : Prop where
  walk : ring.IsChain g.Edge
  /-- Files are told apart by the components of their paths. -/
  distinct : (ring.map (·.components)).Nodup
  reachable : ∀ p ∈ ring, g.Reachable p
  last : ring.getLast? = some u.path
  unit : g.unitAt u.path = .ok u
  directive : d ∈ u.directives
  closed : ring.head? = some (u.path.target d.path)

/-- At this moment the directive `d` of `u` is found to lead back onto the chain, and a cycle is
reported at it. -/
structure Moment.Closes (mo : Moment) (u : SourceUnit) (d : Directive) (cycle : List String)
    (spot : Spot) : Prop where
  action : mo.action = .examine u d
  onChain : onChain mo.chain (u.path.target d.path) = true
  cycle_eq : cycle = cycleOf mo.chain (u.path.target d.path)
  spot_eq : spot = u.spotOf d

/-- The moments end with the one at which the cycle is found. -/
def EndsClosing (ms : List Moment) (cycle : List String) (spot : Spot) : Prop :=
  ∃ mo u d, ms.getLast? = some mo ∧ mo.Closes u d cycle spot

/-! ## Where a cycle is reported -/

section Reported

variable {disk : Disk} {cycle : List String} {spot : Spot} {ms ms' : List Moment}

/-- Moments before the last ones do not matter. -/
theorem EndsClosing.append (ms : List Moment) (h : EndsClosing ms' cycle spot) :
    EndsClosing (ms ++ ms') cycle spot := by
  obtain ⟨mo, u, d, hlast, hcloses⟩ := h
  refine ⟨mo, u, d, ?_, hcloses⟩
  rw [List.getLast?_append, hlast]
  rfl

theorem EndsClosing.cons (mo : Moment) (h : EndsClosing ms cycle spot) :
    EndsClosing (mo :: ms) cycle spot :=
  h.append [mo]

/-- A claim fails for a clash only. -/
theorem claim_ne_circularImport (u : SourceUnit) (m : Model) (st : Progress) :
    (claim u m st).1 ≠ .error (.ofImport (.circularImport cycle spot)) := by
  unfold claim
  split
  · simp
  · split <;> simp

/-- A cycle is handed on as it was reported. -/
theorem eq_of_relocate {u : SourceUnit} {d : Directive} {p : Path} {f : Failure}
    (h : relocate u d p f = .ofImport (.circularImport cycle spot)) :
    f = .ofImport (.circularImport cycle spot) := by
  unfold relocate at h
  split at h
  · cases h
  · exact h

/-- A ring is reported at the last moment, by induction along the calls. -/
theorem endsClosing (disk : Disk) (cycle : List String) (spot : Spot) :
    (∀ chain u st, ∀ depth,
      (resolveFile disk chain u st).1 = .error (.ofImport (.circularImport cycle spot)) →
        EndsClosing (traceFile disk depth chain u st).1 cycle spot) ∧
    ∀ chain u imports m st, ∀ depth,
      (resolveImports disk chain u imports m st).1 =
          .error (.ofImport (.circularImport cycle spot)) →
        EndsClosing (traceImports disk depth chain u imports m st).1 cycle spot := by
  refine resolve_induct disk _ _
    ?load_error ?load_ok ?nil ?on_chain ?included ?read_error ?read_ok
  case load_error =>
    intro chain u st f es hload depth h
    rw [resolveFile_of_load_error hload] at h
    cases h
    obtain ⟨_, _, ⟨⟩⟩ := SourceUnit.eq_of_load_error hload
  case load_ok =>
    intro chain u st m imports es hload ih depth h
    rw [moments_of_load_ok hload]
    rcases resolveFile_cases disk chain st hload with
      ⟨f, st', himports, hfile⟩ | ⟨m', st', _, hfile⟩ <;> rw [hfile] at h
    · rw [himports] at ih
      exact (ih depth h).cons _
    · exact absurd h (claim_ne_circularImport u m' st')
  case nil =>
    intro chain u m st depth h
    rw [resolveImports_nil] at h
    cases h
  case on_chain =>
    intro chain u d rest m st hchain depth h
    rw [resolveImports_of_onChain hchain] at h
    cases h
    rw [moments_of_onChain hchain]
    exact ⟨_, u, d, rfl, rfl, hchain, rfl, rfl⟩
  case included =>
    intro chain u d rest m st hchain hinc ih depth h
    rw [resolveImports_of_included hchain hinc] at h
    rw [moments_of_included hchain hinc]
    exact (ih depth h).cons _
  case read_error =>
    intro chain u d rest m st cause hchain hinc hread depth h
    rw [resolveImports_of_read_error hchain hinc hread] at h
    cases h
  case read_ok =>
    intro chain u d rest m st p text htarget hchain hinc hread ihfile ihrest depth h
    rcases resolveImports_cases m rest htarget hchain hinc hread with
      ⟨f, st', hfile, himports⟩ | ⟨sub, st', hfile, himports⟩ <;> rw [himports] at h
    · have hf := eq_of_relocate (Except.error.inj h)
      rw [hfile, hf] at ihfile
      rw [moments_of_file_error htarget hchain hinc hread hfile]
      exact ((ihfile _ rfl).cons _).cons _
    · rw [moments_of_file_ok htarget hchain hinc hread hfile]
      exact ((ihrest sub st' hfile depth h).cons _).append _

end Reported

/-! ## What is reported -/

section Rings

variable {g : Graph} {depth : Nat} {chain before after : List Path} {u : SourceUnit} {d : Directive}
  {rest : List Directive} {m : Model} {st : Progress} {p : Path}

/-- A chain without repetition is cut where the imported file stands on it. -/
theorem cycleOf_append (hnormal : ∀ q ∈ before ++ p :: after, q.IsNormalForm) (hp : p ∉ before) :
    cycleOf (before ++ p :: after) p = (p :: after ++ [p]).map (·.text) := by
  have hpnormal : p.IsNormalForm := hnormal p (by simp)
  have hbefore : ∀ q ∈ before, (!q.same p) = true := by
    intro q hq
    have hne : q ≠ p := fun heq => hp (heq ▸ hq)
    have hsame := mt (Path.same_iff_eq (hnormal q (List.mem_append_left _ hq)) hpnormal).1 hne
    simpa using hsame
  have hself : p.same p = true := (Path.same_iff_eq hpnormal hpnormal).2 rfl
  rw [cycleOf, List.dropWhile_append_of_pos hbefore,
    List.dropWhile_cons_of_neg (by simpa using hself)]
  simp

/-- A directive that leads back onto the chain closes a ring: the chain from the imported file
on. -/
theorem ImportsReady.ring (h : ImportsReady g depth chain u (d :: rest) m st)
    (hchain : onChain chain (u.path.target d.path) = true) :
    ∃ before ring, chain = before ++ ring ∧ (∀ p ∈ before, p ∉ ring) ∧ g.Ring ring u d ∧
      cycleOf chain (u.path.target d.path) = (ring ++ [u.path.target d.path]).map (·.text) := by
  have hnormal : ∀ q ∈ chain, q.IsNormalForm := fun q hq =>
    h.consistent.normal q (h.consistent.chain_subset hq)
  have hreach : ∀ q ∈ chain, g.Reachable q := fun q hq =>
    h.consistent.reachable q (h.consistent.chain_subset hq)
  have hmem := (h.consistent.onChain_iff (Path.isNormalForm_target _ _)).1 hchain
  obtain ⟨before, after, hsplit⟩ := List.append_of_mem hmem
  obtain ⟨_, hnodup, hdisjoint⟩ := List.nodup_append.1 (hsplit ▸ h.nodup)
  have hlast := h.last
  have hwalk := h.trail.walk
  rw [hsplit] at hnormal hreach hwalk
  rw [hsplit, List.getLast?_append_of_ne_nil _ (List.cons_ne_nil _ _)] at hlast
  refine ⟨before, _, hsplit, fun p hp hring => hdisjoint p hp p hring rfl, ?_, ?_⟩
  · exact {
      walk := hwalk.right_of_append
      distinct := by
        refine List.Nodup.map_on (fun q hq q' hq' heq => ?_) hnodup
        exact (Path.same_iff_eq (hnormal q (List.mem_append_right _ hq))
          (hnormal q' (List.mem_append_right _ hq'))).1 (by simpa [Path.same] using heq)
      reachable := fun p hp => hreach p (List.mem_append_right _ hp)
      last := hlast
      unit := h.unit
      directive := h.directives List.mem_cons_self
      closed := rfl }
  · rw [hsplit]
    exact cycleOf_append hnormal fun hp => hdisjoint _ hp _ List.mem_cons_self rfl

/-- A file that is not on a ring is not named with it. -/
theorem Graph.Ring.text_not_mem {ring : List Path} (h : g.Ring ring u d) (hp : p ∉ ring) :
    p.text ∉ (ring ++ [u.path.target d.path]).map (·.text) := by
  intro hmem
  obtain ⟨q, hq, htext⟩ := List.mem_map.1 hmem
  have heq : q = p := congrArg Path.mk htext
  rcases List.mem_append.1 hq with hq | hq
  · exact hp (heq ▸ hq)
  · rw [List.mem_singleton.1 hq] at heq
    exact hp (heq ▸ List.mem_of_mem_head? h.closed)

end Rings

/-! ## Root files -/

variable {disk : Disk} {baseDir : Option Path} {name text : String} {cycle : List String}
  {spot : Spot}

/-- A resolution that reports a cycle ends at a directive that leads back onto the chain. -/
theorem closes_of_resolve
    (h : (resolve disk baseDir name text).1 = .error (.ofImport (.circularImport cycle spot))) :
    ∃ mo u d, (trace disk baseDir name text).1.getLast? = some mo ∧ mo.Closes u d cycle spot := by
  cases hpath : locate disk baseDir ⟨name⟩ with
  | error e =>
    simp only [resolve, hpath, Except.error.injEq, Failure.ofImport.injEq] at h
    cases h
    obtain ⟨_, _, _, ⟨⟩⟩ := eq_of_locate_error hpath
  | ok path =>
    rw [moments_of_locate_ok hpath]
    exact (endsClosing disk cycle spot).1 [] _ .start 1 (resolveFile_of_resolve_error hpath h)

/-- Every import cycle that is reported is one: each of the files, which differ and can be reached,
imports the next, and the directive that is pointed at imports the first one again. The files on the
chain before that one are not named. -/
theorem circularImport_truthful
    (h : (resolve disk baseDir name text).1 = .error (.ofImport (.circularImport cycle spot))) :
    ∃ path, locate disk baseDir ⟨name⟩ = .ok path ∧
      (trace disk baseDir name text).2 = resolve disk baseDir name text ∧
      ∃ mo before ring u d, (trace disk baseDir name text).1.getLast? = some mo ∧
        mo.action = .examine u d ∧ mo.chain = before ++ ring ∧
        (⟨disk, ⟨path, name, text⟩⟩ : Graph).Ring ring u d ∧
        cycle = (ring ++ [u.path.target d.path]).map (·.text) ∧
        cycleText cycle = " -> ".intercalate ((ring ++ [u.path.target d.path]).map (·.text)) ∧
        (∀ p ∈ before, p.text ∉ cycle) ∧ spot = u.spotOf d := by
  obtain ⟨mo, u, d, hlast, hcloses⟩ := closes_of_resolve h
  obtain ⟨path, hpath, hwithin⟩ := within_of_mem_trace (List.mem_of_getLast? hlast)
  refine ⟨path, hpath, trace_snd .., ?_⟩
  obtain ⟨haction, hchain, hcycle, hspot⟩ := hcloses
  cases hwithin with
  | examine himports =>
    cases haction
    obtain ⟨before, ring, hsplit, hdisjoint, hring, hcut⟩ := himports.ring hchain
    rw [hcut] at hcycle
    refine ⟨_, before, ring, u, d, hlast, rfl, hsplit, hring, hcycle, ?_, ?_, hspot⟩
    · rw [hcycle, cycleText]
    · intro p hp
      rw [hcycle]
      exact hring.text_not_mem (hdisjoint p hp)
  | _ => cases haction

/-- A root that imports a file which imports itself: the root is not named. -/
theorem circularImport_truthful_of_self_import :
    (resolve (FileTree.toDisk ⟨[(["b"], .file "import \"b\"".toUTF8)], .present []⟩) none "/a"
        "import \"b\"").1 = .error (.ofImport (.circularImport ["/b", "/b"]
          ⟨⟨"/b", "import \"b\""⟩, ⟨0, 10⟩, ⟨"/b", 1, 1, 0⟩⟩)) ∧
    ∃ before ring u d, (⟨FileTree.toDisk ⟨[(["b"], .file "import \"b\"".toUTF8)], .present []⟩,
        ⟨⟨"/a"⟩, "/a", "import \"b\""⟩⟩ : Graph).Ring ring u d ∧
      (ring ++ [u.path.target d.path]).map (·.text) = ["/b", "/b"] ∧
      (∃ mo ∈ (trace (FileTree.toDisk ⟨[(["b"], .file "import \"b\"".toUTF8)], .present []⟩) none
        "/a" "import \"b\"").1, mo.chain = before ++ ring) ∧
      ∀ p ∈ before, p.text ∉ ["/b", "/b"] := by
  have hlocate : locate (FileTree.toDisk ⟨[(["b"], .file "import \"b\"".toUTF8)], .present []⟩)
      none ⟨"/a"⟩ = .ok ⟨"/a"⟩ := rfl
  have hload : (⟨⟨"/a"⟩, "/a", "import \"b\""⟩ : SourceUnit).load.1.toOption =
      some (⟨"/a", "", [], [], []⟩, [⟨"b", ⟨"/a", 1, 1, 0⟩, 10⟩]) := by
    decide +kernel
  have hread : (FileTree.toDisk ⟨[(["b"], .file "import \"b\"".toUTF8)], .present []⟩).read ⟨"/b"⟩ =
      .ok "import \"b\"" := by
    decide +kernel
  have hsub : (⟨⟨"/b"⟩, "/b", "import \"b\""⟩ : SourceUnit).load.1.toOption =
      some (⟨"/b", "", [], [], []⟩, [⟨"b", ⟨"/b", 1, 1, 0⟩, 10⟩]) := by
    decide +kernel
  have hcycle : cycleOf [⟨"/a"⟩, ⟨"/b"⟩] ((⟨"/b"⟩ : Path).target "b") = ["/b", "/b"] := by
    decide +kernel
  have hresolve := Fails.resolve hlocate hload
    (.within (by decide +kernel) (by decide +kernel) (by decide +kernel) hread hsub
      (.cycle (by decide +kernel)))
  rw [List.cons_append, List.nil_append, hcycle] at hresolve
  obtain ⟨path, hpath, _, mo, before, ring, u, d, hlast, _, hchain, hring, hnames, _, hbefore, _⟩ :=
    circularImport_truthful hresolve
  rw [hlocate] at hpath
  cases hpath
  exact ⟨hresolve, before, ring, u, d, hring, hnames.symm, ⟨mo, List.mem_of_getLast? hlast, hchain⟩,
    hbefore⟩

end InterfaceLang.Imports
