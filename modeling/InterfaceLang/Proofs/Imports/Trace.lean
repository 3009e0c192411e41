import InterfaceLang.Proofs.Imports.Placement

/-!
# The course of a resolution

A resolution goes through moments: it is about to resolve a file, to examine an import directive, to
read a text, or to merge the model of an imported file. Each moment is written down with the chain
and the registry as they stand and the number of files that are being resolved.

What holds at a moment is shown in two ways. A condition on calls that a call hands on to the calls
it makes holds at every moment (`HandedOn`). What is true of the course as a whole, in what order
registries come and which paths are read, is gathered along the calls (`Course`).

Results:
* `trace_snd`: leaving out the moments, a traced resolution is the resolution.
* `HandedOn.moments`: every moment lies in a call that meets its condition.
* `course_of_resolve`: along a resolution registries only grow, no path is read twice, and the files
  that are resolved are the first one and those that have been read.
-/

namespace InterfaceLang.Imports

/-- The path of the file that is about to be resolved. -/
def Moment.resolved? (mo : Moment) : Option Path :=
  match mo.action with
  | .resolve u => some u.path
  | _ => none

/-- The path at which a text is about to be read. -/
def Moment.read? (mo : Moment) : Option Path :=
  match mo.action with
  | .read p => some p
  | _ => none

/-- The paths of the files that are resolved, in order. -/
def resolvedPaths (ms : List Moment) : List Path :=
  ms.filterMap Moment.resolved?

/-- The paths at which a text is read, in order. -/
def readPaths (ms : List Moment) : List Path :=
  ms.filterMap Moment.read?

/-! ## Root files -/

/-- Resolves a root file as `resolve` does and gives the moments of doing so. -/
def trace (disk : Disk) (baseDir : Option Path) (name text : String) :
    List Moment × Except Failure Model × Progress :=
  match locate disk baseDir ⟨name⟩ with
  | .error e => ([], .error (.ofImport e), .start)
  | .ok path =>
    match traceFile disk 1 [] ⟨path, name, text⟩ .start with
    | (ms, .error f, st) => (ms, .error f, st)
    | (ms, .ok m, st) => (ms, .ok { m with file := name }, st)

section Root

variable {disk : Disk} {baseDir : Option Path} {name text : String}

/-- Leaving out the moments, a traced resolution is the resolution. -/
theorem trace_snd (disk : Disk) (baseDir : Option Path) (name text : String) :
    (trace disk baseDir name text).2 = resolve disk baseDir name text := by
  unfold trace resolve
  cases locate disk baseDir ⟨name⟩ with
  | error e => rfl
  | ok path =>
    have hsnd : (traceFile disk 1 [] ⟨path, name, text⟩ .start).2 =
        resolveFile disk [] ⟨path, name, text⟩ .start := rfl
    simp only [← hsnd]
    rcases traceFile disk 1 [] ⟨path, name, text⟩ .start with ⟨ms, _ | _, st⟩ <;> rfl

/-- The moments of a root that is located are those of its file. -/
theorem moments_of_locate_ok {path : Path} (h : locate disk baseDir ⟨name⟩ = .ok path) :
    (trace disk baseDir name text).1 = (traceFile disk 1 [] ⟨path, name, text⟩ .start).1 := by
  unfold trace
  simp only [h]
  rcases traceFile disk 1 [] ⟨path, name, text⟩ .start with ⟨ms, _ | _, st⟩ <;> rfl

theorem moments_of_locate_error {e : ImportError} (h : locate disk baseDir ⟨name⟩ = .error e) :
    (trace disk baseDir name text).1 = [] := by
  unfold trace
  simp only [h]

/-- The moments until the first import of a root has been followed, if the imported file imports
nothing and has a namespace. -/
theorem moments_of_first_import {path p : Path} {m sub : Model} {d : Directive}
    {rest : List Directive} {text' : String} (hlocate : locate disk baseDir ⟨name⟩ = .ok path)
    (hload : (⟨path, name, text⟩ : SourceUnit).load.1.toOption = some (m, d :: rest))
    (htarget : path.target d.path = p) (hsame : ¬path.same p = true)
    (hread : disk.read p = .ok text')
    (hsub : (⟨p, p.text, text'⟩ : SourceUnit).load.1.toOption = some (sub, []))
    (hns : sub.rootNs ≠ "") :
    ∃ es, (trace disk baseDir name text).1 =
      [⟨1, [], .empty, .resolve ⟨path, name, text⟩⟩,
        ⟨1, [path], ⟨[], [path]⟩, .examine ⟨path, name, text⟩ d⟩,
        ⟨1, [path], ⟨[], [path]⟩, .read p⟩,
        ⟨2, [path], ⟨[], [path]⟩, .resolve ⟨p, p.text, text'⟩⟩,
        ⟨1, [path], ⟨[(sub.rootNs, p)], [path, p]⟩, .merge sub⟩] ++
      (traceImports disk 1 [path] ⟨path, name, text⟩ rest (m.merge sub)
        ⟨⟨[(sub.rootNs, p)], [path, p]⟩, es⟩).1 := by
  obtain ⟨es, hload⟩ := load_of_toOption hload
  have hoff : ¬onChain [path] p = true := by simpa [onChain] using hsame
  have hnew : ¬(Registry.empty.addFile path).includes p = true := by
    simpa [Registry.addFile, Registry.includes, Registry.empty] using hsame
  have hsettle : settle ((Registry.empty.addFile path).addFile p) sub.rootNs p =
      ⟨[(sub.rootNs, p)], [path, p]⟩ := by
    rw [settle, if_neg hns, Registry.addFile_of_not_includes hnew]
    rfl
  obtain ⟨es', hfile⟩ : ∃ es', resolveFile disk [path] ⟨p, p.text, text'⟩
      (((Progress.start.log (.resolving path.text :: es)).addFile path).log
        [.importing path.text p.text]) = (.ok sub, ⟨⟨[(sub.rootNs, p)], [path, p]⟩, es'⟩) :=
    hsettle ▸ Follows.resolveFile _ _ hsub .done
      ((owner?_addFile _ _ _).trans (owner?_addFile _ _ _))
  obtain ⟨es'', hsub⟩ := load_of_toOption hsub
  refine ⟨es' ++ [sub.mergeEvent], ?_⟩
  rw [moments_of_locate_ok hlocate, moments_of_load_ok hload, List.nil_append,
    moments_of_file_ok (u := ⟨path, name, text⟩) htarget hoff hnew hread hfile,
    moments_of_load_ok hsub, moments_nil]
  rfl

end Root

/-! ## Conditions that calls hand on -/

/-- A condition on calls for a file and one on calls for imports such that a call which meets its
condition makes only such calls. -/
structure HandedOn (disk : Disk) (File : Nat → List Path → SourceUnit → Progress → Prop)
    (Imports : Nat → List Path → SourceUnit → List Directive → Model → Progress → Prop) :
    Prop where
  enter : ∀ {depth chain u st m imports es}, File depth chain u st →
    u.load = (.ok (m, imports), es) → Imports depth (chain ++ [u.path]) u imports m
      ((st.log (.resolving u.path.text :: es)).addFile u.path)
  skip : ∀ {depth chain u d rest m st}, Imports depth chain u (d :: rest) m st →
    ¬onChain chain (u.path.target d.path) = true →
    st.registry.includes (u.path.target d.path) = true → Imports depth chain u rest m
      (st.log [.alreadyIncluded u.path.text (u.path.target d.path).text])
  visit : ∀ {depth chain u d rest m st text p}, Imports depth chain u (d :: rest) m st →
    u.path.target d.path = p → ¬onChain chain p = true → ¬st.registry.includes p = true →
    disk.read p = .ok text →
    File (depth + 1) chain ⟨p, p.text, text⟩ (st.log [.importing u.path.text p.text])
  next : ∀ {depth chain u d rest m st text p sub st'}, Imports depth chain u (d :: rest) m st →
    u.path.target d.path = p → ¬onChain chain p = true → ¬st.registry.includes p = true →
    disk.read p = .ok text →
    resolveFile disk chain ⟨p, p.text, text⟩ (st.log [.importing u.path.text p.text]) =
      (.ok sub, st') →
    Imports depth chain u rest (m.merge sub) (st'.log [sub.mergeEvent])

/-- A moment in a call that meets its condition. -/
inductive Moment.Within (disk : Disk) (File : Nat → List Path → SourceUnit → Progress → Prop)
    (Imports : Nat → List Path → SourceUnit → List Directive → Model → Progress → Prop) :
    Moment → Prop
  | resolve {depth chain u st} : File depth chain u st →
      Within disk File Imports ⟨depth, chain, st.registry, .resolve u⟩
  | examine {depth chain u d rest m st} : Imports depth chain u (d :: rest) m st →
      Within disk File Imports ⟨depth, chain, st.registry, .examine u d⟩
  | read {depth chain u d rest m st} : Imports depth chain u (d :: rest) m st →
      Within disk File Imports ⟨depth, chain, st.registry, .read (u.path.target d.path)⟩
  | merge {depth chain u st sub st'} : File (depth + 1) chain u st →
      resolveFile disk chain u st = (.ok sub, st') →
      Within disk File Imports ⟨depth, chain, st'.registry, .merge sub⟩

namespace HandedOn

variable {disk : Disk} {File : Nat → List Path → SourceUnit → Progress → Prop}
  {Imports : Nat → List Path → SourceUnit → List Directive → Model → Progress → Prop}

/-- Every moment of a call that meets its condition lies in a call that meets its condition. -/
theorem moments (h : HandedOn disk File Imports) :
    (∀ chain u st, ∀ depth, File depth chain u st →
      ∀ mo ∈ (traceFile disk depth chain u st).1, mo.Within disk File Imports) ∧
    ∀ chain u imports m st, ∀ depth, Imports depth chain u imports m st →
      ∀ mo ∈ (traceImports disk depth chain u imports m st).1, mo.Within disk File Imports := by
  refine resolve_induct disk _ _
    ?load_error ?load_ok ?nil ?on_chain ?included ?read_error ?read_ok
  case load_error =>
    intro chain u st f es hload depth hfile
    rw [moments_of_load_error hload, List.forall_mem_singleton]
    exact .resolve hfile
  case load_ok =>
    intro chain u st m imports es hload ih depth hfile
    rw [moments_of_load_ok hload, List.forall_mem_cons]
    exact ⟨.resolve hfile, ih depth (h.enter hfile hload)⟩
  case nil =>
    intro chain u m st depth _
    simp [moments_nil]
  case on_chain =>
    intro chain u d rest m st hchain depth himports
    rw [moments_of_onChain hchain, List.forall_mem_singleton]
    exact .examine himports
  case included =>
    intro chain u d rest m st hchain hinc ih depth himports
    rw [moments_of_included hchain hinc, List.forall_mem_cons]
    exact ⟨.examine himports, ih depth (h.skip himports hchain hinc)⟩
  case read_error =>
    intro chain u d rest m st cause hchain hinc hread depth himports
    rw [moments_of_read_error hchain hinc hread, List.forall_mem_cons, List.forall_mem_singleton]
    exact ⟨.examine himports, .read himports⟩
  case read_ok =>
    intro chain u d rest m st p text htarget hchain hinc hread ihfile ihrest depth himports
    have hvisit := h.visit himports htarget hchain hinc hread
    have hread' : (⟨depth, chain, st.registry, .read p⟩ : Moment).Within disk File Imports :=
      htarget ▸ .read himports
    rcases hfile : resolveFile disk chain ⟨p, p.text, text⟩ (st.log [.importing u.path.text p.text])
      with ⟨f | sub, st'⟩
    · rw [moments_of_file_error htarget hchain hinc hread hfile, List.forall_mem_cons,
        List.forall_mem_cons]
      exact ⟨.examine himports, hread', ihfile _ hvisit⟩
    · have hnext := h.next himports htarget hchain hinc hread hfile
      rw [moments_of_file_ok htarget hchain hinc hread hfile, List.forall_mem_append,
        List.forall_mem_cons, List.forall_mem_cons, List.forall_mem_cons]
      exact ⟨⟨.examine himports, hread', ihfile _ hvisit⟩, .merge hvisit hfile,
        ihrest sub st' hfile depth hnext⟩

end HandedOn

/-! ## The course as a whole -/

/-- Whether there is a text at a path. -/
def readable (disk : Disk) (p : Path) : Bool :=
  (disk.read p).isOk

/-- What is true of the moments that follow a registry. -/
structure Course (disk : Disk) (r : Registry) (ms : List Moment) : Prop where
  since : ∀ mo ∈ ms, Later r mo.registry
  ordered : ms.Pairwise fun a b => Later a.registry b.registry
  normal : ∀ p ∈ readPaths ms, p.IsNormalForm
  fresh : ∀ p ∈ readPaths ms, ¬r.includes p = true
  distinct : (readPaths ms).Pairwise fun p q => ¬p.same q = true
  /-- The files that are resolved are those that have been read. -/
  resolved : resolvedPaths ms = (readPaths ms).filter (readable disk)

/-- What is true of the moments between two registries, if the resolution has not failed. -/
structure Passed (r : Registry) (ms : List Moment) (r' : Registry) : Prop where
  later : Later r r'
  upTo : ∀ mo ∈ ms, Later mo.registry r'
  included : ∀ p ∈ readPaths ms, r'.includes p = true

section Course

variable {disk : Disk} {depth : Nat} {chain : List Path} {r r' r'' : Registry}
  {ms ms' : List Moment} {u : SourceUnit} {d : Directive} {p : Path}

theorem Course.nil (disk : Disk) (r : Registry) : Course disk r [] :=
  ⟨by simp, .nil, by simp [readPaths], by simp [readPaths], .nil, rfl⟩

theorem Passed.refl (r : Registry) : Passed r [] r :=
  ⟨.refl r, by simp, by simp [readPaths]⟩

/-- A moment at which no file is resolved and nothing is read. -/
theorem Course.cons (mo : Moment) (h : Course disk mo.registry ms) (hread : mo.read? = none)
    (hresolved : mo.resolved? = none) : Course disk mo.registry (mo :: ms) where
  since := List.forall_mem_cons.2 ⟨.refl _, h.since⟩
  ordered := List.pairwise_cons.2 ⟨h.since, h.ordered⟩
  normal := by simpa [readPaths, hread] using h.normal
  fresh := by simpa [readPaths, hread] using h.fresh
  distinct := by simpa [readPaths, hread] using h.distinct
  resolved := by simpa [readPaths, resolvedPaths, hread, hresolved] using h.resolved

/-- A moment at which nothing is read may come before. -/
theorem Passed.cons (mo : Moment) (h : Passed mo.registry ms r') (hread : mo.read? = none) :
    Passed mo.registry (mo :: ms) r' where
  later := h.later
  upTo := List.forall_mem_cons.2 ⟨h.later, h.upTo⟩
  included := by simpa [readPaths, hread] using h.included

/-- A text is asked for that there is not. -/
theorem Course.read_error (hp : p.IsNormalForm) (hnew : ¬r.includes p = true)
    (hread : readable disk p = false) :
    Course disk r [⟨depth, chain, r, .read p⟩] where
  since := List.forall_mem_singleton.2 (.refl r)
  ordered := List.pairwise_singleton _ _
  normal := by simpa [readPaths, Moment.read?] using hp
  fresh := by simpa [readPaths, Moment.read?] using hnew
  distinct := by simp [readPaths, Moment.read?]
  resolved := by simp [readPaths, resolvedPaths, Moment.read?, Moment.resolved?, hread]

/-- A text is read and the file resolved; what is read after that is neither included before nor the
file itself. -/
theorem Course.read_ok (depth : Nat) (chain : List Path) (u : SourceUnit)
    (h : Course disk (r.addFile u.path) ms) (hp : u.path.IsNormalForm)
    (hnew : ¬r.includes u.path = true) (hread : readable disk u.path = true) :
    Course disk r (⟨depth, chain, r, .read u.path⟩ :: ⟨depth + 1, chain, r, .resolve u⟩ :: ms) where
  since := by
    have hlater : ∀ mo ∈ ms, Later r mo.registry :=
      fun mo hmo => (later_addFile r u.path).trans (h.since mo hmo)
    exact List.forall_mem_cons.2 ⟨.refl r, List.forall_mem_cons.2 ⟨.refl r, hlater⟩⟩
  ordered := by
    have hlater : ∀ mo ∈ ms, Later r mo.registry :=
      fun mo hmo => (later_addFile r u.path).trans (h.since mo hmo)
    exact List.pairwise_cons.2 ⟨List.forall_mem_cons.2 ⟨.refl r, hlater⟩,
      List.pairwise_cons.2 ⟨hlater, h.ordered⟩⟩
  normal := List.forall_mem_cons.2 ⟨hp, h.normal⟩
  fresh := List.forall_mem_cons.2 ⟨hnew, fun q hq hinc =>
    h.fresh q hq ((later_addFile r u.path).includes q hinc)⟩
  distinct := List.pairwise_cons.2 ⟨fun q hq hsame => h.fresh q hq
    (includes_of_same (by simpa [Path.same, eq_comm] using hsame) (includes_addFile r u.path)),
    h.distinct⟩
  resolved := by
    show u.path :: resolvedPaths ms = (u.path :: readPaths ms).filter (readable disk)
    rw [List.filter_cons_of_pos hread, h.resolved]

/-- Reading a file and resolving it come together, before the moments below it. -/
theorem Passed.read_ok (depth : Nat) (chain : List Path) (u : SourceUnit)
    (h : Passed (r.addFile u.path) ms r') :
    Passed r (⟨depth, chain, r, .read u.path⟩ :: ⟨depth + 1, chain, r, .resolve u⟩ :: ms) r' where
  later := (later_addFile r u.path).trans h.later
  upTo := List.forall_mem_cons.2 ⟨(later_addFile r u.path).trans h.later,
    List.forall_mem_cons.2 ⟨(later_addFile r u.path).trans h.later, h.upTo⟩⟩
  included := List.forall_mem_cons.2
    ⟨h.later.includes _ (includes_addFile r u.path), h.included⟩

/-- Two courses follow each other if the first one leaves the registry with which the second one
begins. -/
theorem Course.append (h : Course disk r ms) (hpassed : Passed r ms r')
    (h' : Course disk r' ms') : Course disk r (ms ++ ms') where
  since := List.forall_mem_append.2
    ⟨h.since, fun mo hmo => hpassed.later.trans (h'.since mo hmo)⟩
  ordered := List.pairwise_append.2 ⟨h.ordered, h'.ordered, fun a ha b hb =>
    (hpassed.upTo a ha).trans (h'.since b hb)⟩
  normal := by
    rw [readPaths, List.filterMap_append]
    exact List.forall_mem_append.2 ⟨h.normal, h'.normal⟩
  fresh := by
    rw [readPaths, List.filterMap_append]
    exact List.forall_mem_append.2 ⟨h.fresh, fun p hp hinc =>
      h'.fresh p hp (hpassed.later.includes p hinc)⟩
  distinct := by
    rw [readPaths, List.filterMap_append]
    refine List.pairwise_append.2 ⟨h.distinct, h'.distinct, fun p hp q hq hsame => ?_⟩
    exact h'.fresh q hq (includes_of_same (by simpa [Path.same, eq_comm] using hsame)
      (hpassed.included p hp))
  resolved := by
    rw [readPaths, resolvedPaths, List.filterMap_append, List.filterMap_append, List.filter_append]
    exact congrArg₂ _ h.resolved h'.resolved

/-- What has been passed can be passed one after the other. -/
theorem Passed.append (h : Passed r ms r') (h' : Passed r' ms' r'') :
    Passed r (ms ++ ms') r'' where
  later := h.later.trans h'.later
  upTo := List.forall_mem_append.2 ⟨fun mo hmo => (h.upTo mo hmo).trans h'.later, h'.upTo⟩
  included := by
    rw [readPaths, List.filterMap_append]
    exact List.forall_mem_append.2
      ⟨fun p hp => h'.later.includes p (h.included p hp), h'.included⟩

/-- A claim lets namespaces keep their owners, also if it fails. -/
theorem later_claim {m : Model} {result : Except Failure Model} {st st' : Progress}
    (h : claim u m st = (result, st')) : Later st.registry st'.registry := by
  unfold claim at h
  split at h
  · cases h
    exact .refl _
  · split at h
    · next r hr =>
      cases h
      refine ⟨fun q hq => ?_, fun ns q hq => Registry.owner?_claim_of_some hr hq⟩
      rcases Registry.claim_eq_ok hr with ⟨_, _, _, rfl⟩ | ⟨_, rfl⟩
      · exact hq
      · exact hq
    · cases h
      exact .refl _

/-- The course of resolving a file: it begins with the file itself, and the file counts as included
from then on. -/
def FileCourse (disk : Disk) (chain : List Path) (u : SourceUnit) (st : Progress) : Prop :=
  ∀ depth, ∃ ms, (traceFile disk depth chain u st).1 =
      ⟨depth, chain, st.registry, .resolve u⟩ :: ms ∧
    Course disk (st.registry.addFile u.path) ms ∧
    ∀ m st', resolveFile disk chain u st = (.ok m, st') →
      Passed (st.registry.addFile u.path) ms st'.registry

/-- The course of following imports. -/
def ImportsCourse (disk : Disk) (chain : List Path) (u : SourceUnit) (imports : List Directive)
    (m : Model) (st : Progress) : Prop :=
  ∀ depth, Course disk st.registry (traceImports disk depth chain u imports m st).1 ∧
    ∀ m' st', resolveImports disk chain u imports m st = (.ok m', st') →
      Passed st.registry (traceImports disk depth chain u imports m st).1 st'.registry

/-- The course of a file is its own moment and then the course of its imports. -/
theorem fileCourse_of_load_ok {st : Progress} {m : Model} {imports : List Directive}
    {es : List Event} (hload : u.load = (.ok (m, imports), es))
    (ih : ImportsCourse disk (chain ++ [u.path]) u imports m
      ((st.log (.resolving u.path.text :: es)).addFile u.path)) : FileCourse disk chain u st := by
  intro depth
  obtain ⟨hcourse, hpassed⟩ := ih depth
  refine ⟨_, moments_of_load_ok hload, hcourse, fun m' st' hok => ?_⟩
  rcases resolveFile_cases disk chain st hload with
    ⟨f, st'', _, hfile⟩ | ⟨m'', st'', himports, hfile⟩ <;> rw [hfile] at hok
  · cases hok
  · obtain ⟨hlater, hupTo, hincluded⟩ := hpassed m'' st'' himports
    have hclaim := later_claim hok
    exact ⟨hlater.trans hclaim, fun mo hmo => (hupTo mo hmo).trans hclaim,
      fun p hp => hclaim.includes p (hincluded p hp)⟩

/-- The course of an imported file comes between its reading and its merging, and that of the other
imports after it. -/
theorem importsCourse_of_read_ok {st : Progress} {m : Model} {rest : List Directive}
    {text : String} (htarget : u.path.target d.path = p) (hchain : ¬onChain chain p = true)
    (hinc : ¬st.registry.includes p = true) (hread : disk.read p = .ok text)
    (ihfile : FileCourse disk chain ⟨p, p.text, text⟩ (st.log [.importing u.path.text p.text]))
    (ihrest : ∀ sub st', resolveFile disk chain ⟨p, p.text, text⟩
      (st.log [.importing u.path.text p.text]) = (.ok sub, st') →
      ImportsCourse disk chain u rest (m.merge sub) (st'.log [sub.mergeEvent])) :
    ImportsCourse disk chain u (d :: rest) m st := by
  intro depth
  have hp : p.IsNormalForm := htarget ▸ Path.isNormalForm_target u.path d.path
  have hreadable : readable disk p = true := by rw [readable, hread]; rfl
  obtain ⟨ms, hms, hcourse, hpassed⟩ := ihfile (depth + 1)
  have hfirst : Course disk st.registry _ :=
    .read_ok depth chain ⟨p, p.text, text⟩ hcourse hp hinc hreadable
  rw [resolveImports_of_read_ok htarget hchain hinc hread]
  cases hfile : resolveFile disk chain ⟨p, p.text, text⟩
      (st.log [.importing u.path.text p.text]) with
  | mk result st' =>
    cases result with
    | error f =>
      rw [moments_of_file_error htarget hchain hinc hread hfile, hms]
      refine ⟨.cons ⟨_, _, _, .examine u d⟩ hfirst rfl rfl, fun m' st'' hok => ?_⟩
      cases hok
    | ok sub =>
      rw [moments_of_file_ok htarget hchain hinc hread hfile, hms]
      obtain ⟨hcourse', hpassed'⟩ := ihrest sub st' hfile depth
      have hthrough : Passed st.registry _ st'.registry :=
        .read_ok depth chain ⟨p, p.text, text⟩ (hpassed sub st' hfile)
      refine ⟨.append (.cons ⟨_, _, _, .examine u d⟩ hfirst rfl rfl)
        (.cons ⟨_, _, _, .examine u d⟩ hthrough rfl)
        (.cons ⟨_, _, _, .merge sub⟩ hcourse' rfl rfl), fun m' st'' hok => ?_⟩
      exact .append (.cons ⟨_, _, _, .examine u d⟩ hthrough rfl)
        (.cons ⟨_, _, _, .merge sub⟩ (hpassed' m' st'' hok) rfl)

/-- The course of every call, by induction along the calls. -/
theorem course_of_resolve (disk : Disk) :
    (∀ chain u st, FileCourse disk chain u st) ∧
      ∀ chain u imports m st, ImportsCourse disk chain u imports m st := by
  refine resolve_induct disk (FileCourse disk) (ImportsCourse disk)
    ?load_error ?load_ok ?nil ?on_chain ?included ?read_error ?read_ok
  case load_error =>
    intro chain u st f es hload depth
    refine ⟨[], moments_of_load_error hload, .nil _ _, fun m st' hok => ?_⟩
    rw [resolveFile_of_load_error hload] at hok
    cases hok
  case load_ok =>
    intro chain u st m imports es hload ih
    exact fileCourse_of_load_ok hload ih
  case nil =>
    intro chain u m st depth
    rw [moments_nil, resolveImports_nil]
    refine ⟨.nil _ _, fun m' st' hok => ?_⟩
    cases hok
    exact .refl _
  case on_chain =>
    intro chain u d rest m st hchain depth
    rw [moments_of_onChain hchain, resolveImports_of_onChain hchain]
    refine ⟨.cons ⟨_, _, _, .examine u d⟩ (.nil _ _) rfl rfl, fun m' st' hok => ?_⟩
    cases hok
  case included =>
    intro chain u d rest m st hchain hinc ih depth
    rw [moments_of_included hchain hinc, resolveImports_of_included hchain hinc]
    obtain ⟨hcourse, hpassed⟩ := ih depth
    refine ⟨.cons ⟨_, _, _, .examine u d⟩ hcourse rfl rfl, fun m' st' hok => ?_⟩
    exact .cons ⟨_, _, _, .examine u d⟩ (hpassed m' st' hok) rfl
  case read_error =>
    intro chain u d rest m st cause hchain hinc hread depth
    rw [moments_of_read_error hchain hinc hread, resolveImports_of_read_error hchain hinc hread]
    have hread' : readable disk (u.path.target d.path) = false := by rw [readable, hread]; rfl
    refine ⟨.cons ⟨_, _, _, .examine u d⟩
      (.read_error (Path.isNormalForm_target _ _) hinc hread') rfl rfl, fun m' st' hok => ?_⟩
    cases hok
  case read_ok =>
    intro chain u d rest m st p text htarget hchain hinc hread ihfile ihrest
    exact importsCourse_of_read_ok htarget hchain hinc hread ihfile ihrest

end Course

end InterfaceLang.Imports
