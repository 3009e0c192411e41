import InterfaceLang.Proofs.Imports.Trace

/-!
# The frame of a call

A call in a session may begin in any state: chain and registry may be left over from earlier calls,
and from ones that failed. What it pushes on the chain it pops (`Session.Ended`). The registry only
grows, also on the way to a failure (`resolve_later`), and a call below the first one is made only
for a file that is not included.

Results:
* `resolve_later`: nothing is taken out of the registry and namespaces keep their owners, however a
  call ends.
* `resolveFile_framed`: what a call leaves as it was, and which files it resolves.
-/

namespace InterfaceLang.Imports

/-! ## The registry -/

/-- Whether a call succeeds or fails, nothing is taken out of the registry and namespaces keep their
owners. -/
theorem resolve_later (disk : Disk) :
    (∀ chain u st, Later st.registry (resolveFile disk chain u st).2.registry) ∧
      ∀ chain u imports m st,
        Later st.registry (resolveImports disk chain u imports m st).2.registry := by
  refine resolve_induct disk _ _
    ?load_error ?load_ok ?nil ?on_chain ?included ?read_error ?read_ok
  case load_error =>
    intro chain u st f es hload
    rw [resolveFile_of_load_error hload]
    exact .refl _
  case load_ok =>
    intro chain u st m imports es hload ih
    have hadd : Later st.registry (st.registry.addFile u.path) := later_addFile _ _
    rcases resolveFile_cases disk chain st hload with
      ⟨f, st', himports, hfile⟩ | ⟨m', st', himports, hfile⟩ <;> rw [hfile] <;>
      rw [himports] at ih
    · exact hadd.trans ih
    · exact (hadd.trans ih).trans (later_claim rfl)
  case nil =>
    intro chain u m st
    rw [resolveImports_nil]
    exact .refl _
  case on_chain =>
    intro chain u d rest m st hchain
    rw [resolveImports_of_onChain hchain]
    exact .refl _
  case included =>
    intro chain u d rest m st hchain hinc ih
    rw [resolveImports_of_included hchain hinc]
    exact ih
  case read_error =>
    intro chain u d rest m st cause hchain hinc hread
    rw [resolveImports_of_read_error hchain hinc hread]
    exact .refl _
  case read_ok =>
    intro chain u d rest m st p text htarget hchain hinc hread ihfile ihrest
    rcases resolveImports_cases m rest htarget hchain hinc hread with
      ⟨f, st', hfile, himports⟩ | ⟨sub, st', hfile, himports⟩ <;> rw [himports] <;>
      rw [hfile] at ihfile
    · exact ihfile
    · exact ihfile.trans (ihrest sub st' hfile)

/-- Resolving a file leaves a later registry, also when it fails. -/
theorem later_of_resolveFile {disk : Disk} {chain : List Path} {u : SourceUnit} {st st' : Progress}
    {result : Except Failure Model} (h : resolveFile disk chain u st = (result, st')) :
    Later st.registry st'.registry := by
  have hlater := (resolve_later disk).1 chain u st
  rwa [h] at hlater

/-- Following imports leaves a later registry, also when it fails. -/
theorem later_of_resolveImports {disk : Disk} {chain : List Path} {u : SourceUnit}
    {imports : List Directive} {m : Model} {st st' : Progress} {result : Except Failure Model}
    (h : resolveImports disk chain u imports m st = (result, st')) :
    Later st.registry st'.registry := by
  have hlater := (resolve_later disk).2 chain u imports m st
  rwa [h] at hlater

/-! ## Files that are resolved -/

/-- Calls below the first one are made for files that are not included yet. -/
theorem handedOn_new (disk : Disk) :
    HandedOn disk (fun _ _ u st => ¬st.registry.includes u.path = true)
      fun _ _ _ _ _ _ => True where
  enter := fun _ _ => trivial
  skip := fun _ _ _ => trivial
  visit := fun _ _ _ hinc _ => hinc
  next := fun _ _ _ _ _ _ => trivial

/-- A file that is about to be resolved is not included yet. -/
theorem not_includes_of_mem_traceImports {disk : Disk} {depth : Nat} {chain : List Path}
    {u v : SourceUnit} {imports : List Directive} {m : Model} {st : Progress} {mo : Moment}
    (hmo : mo ∈ (traceImports disk depth chain u imports m st).1) (hv : mo.action = .resolve v) :
    ¬mo.registry.includes v.path = true := by
  have hwithin := (handedOn_new disk).moments.2 chain u imports m st depth trivial mo hmo
  cases hwithin with
  | resolve hnew =>
    cases hv
    exact hnew
  | _ => cases hv

/-- The moments of resolving a file begin with the file itself; every file that is resolved after
that is another one, and it is not included when its turn comes. -/
theorem moments_of_resolveFile (disk : Disk) (depth : Nat) (chain : List Path) (u : SourceUnit)
    (st : Progress) :
    ∃ ms, (traceFile disk depth chain u st).1 = ⟨depth, chain, st.registry, .resolve u⟩ :: ms ∧
      ∀ mo ∈ ms, Later st.registry mo.registry ∧ ∀ v, mo.action = .resolve v →
        ¬v.path.same u.path = true ∧ ¬mo.registry.includes v.path = true := by
  obtain ⟨ms, hms, hcourse, _⟩ := (course_of_resolve disk).1 chain u st depth
  refine ⟨ms, hms, fun mo hmo => ⟨(later_addFile _ _).trans (hcourse.since mo hmo), ?_⟩⟩
  intro v hv
  have hnew : ¬mo.registry.includes v.path = true := by
    cases hload : u.load with
    | mk result es =>
      cases result with
      | error f =>
        rw [moments_of_load_error hload] at hms
        cases hms
        cases hmo
      | ok loaded =>
        rw [moments_of_load_ok hload] at hms
        cases hms
        exact not_includes_of_mem_traceImports hmo hv
  refine ⟨fun hsame => hnew ?_, hnew⟩
  exact (hcourse.since mo hmo).includes _ (includes_of_same hsame (includes_addFile _ _))

/-! ## The frame of a call -/

/-- What a call for the file `u` that leads from `s` to `s'` leaves as it was, and which files it
resolves; `ms` are its moments. -/
structure Framed (u : SourceUnit) (s s' : Session) (ms : List Moment) : Prop where
  chain : s'.chain = s.chain
  included : ∀ p, s.registry.includes p = true → s'.registry.includes p = true
  owners : ∀ ns p, s.registry.owner? ns = some p → s'.registry.owner? ns = some p
  /-- The first file that is resolved is `u`; each of the others is not `u` and is included neither
  before the call nor when it is resolved. -/
  resolved : ms.head?.map (·.action) = some (.resolve u) ∧ ∀ mo ∈ ms.tail, ∀ v,
    mo.action = .resolve v → ¬v.path.same u.path = true ∧ ¬s.registry.includes v.path = true ∧
      ¬mo.registry.includes v.path = true

/-- A call in a session, whatever state it begins in and whatever it ends with, restores the chain,
takes nothing out of the registry, lets namespaces keep their owners, and resolves beside its own
file only files that are not included. -/
theorem resolveFile_framed (disk : Disk) (u : SourceUnit) (s : Session) (depth : Nat) :
    ∃ result s' ms, (s.resolveFile disk u).run = (result, s') ∧
      resolveFile disk s.chain u s.progress = (result, s'.progress) ∧
      traceFile disk depth s.chain u s.progress = (ms, result, s'.progress) ∧
      Framed u s s' ms := by
  obtain ⟨ms, hms, hnew⟩ := moments_of_resolveFile disk depth s.chain u s.progress
  have htrace : traceFile disk depth s.chain u s.progress =
      (_, resolveFile disk s.chain u s.progress) :=
    Prod.ext hms rfl
  have hlater := (resolve_later disk).1 s.chain u s.progress
  refine ⟨_, _, _, s.run_resolveFile disk u, rfl, htrace, rfl, hlater.includes, hlater.owners, rfl,
    fun mo hmo v hv => ?_⟩
  obtain ⟨hsince, hresolved⟩ := hnew mo hmo
  obtain ⟨hother, hnot⟩ := hresolved v hv
  exact ⟨hother, fun hinc => hnot (hsince.includes _ hinc), hnot⟩

end InterfaceLang.Imports
