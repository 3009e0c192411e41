import InterfaceLang.Imports.Resolve

/-!
# Calls that are handed a chain

The recursion that follows imports keeps one chain for a whole session and writes down its moments.
Here it is seen from outside: a call is handed a chain and gives an outcome (`resolveFile`,
`resolveImports`), or its moments with the outcome (`traceFile`, `traceImports`). Each is read off
how the call in the session ends, so an outcome and its moments belong to the same run.

There is one equation for each way a call can go on, first in a session, then for outcomes and for
moments, and one principle of induction over the two kinds of calls. What is true of resolutions is
proved from these; the recursion itself is opened nowhere else.

Results:
* `Session.run_resolveFile`: a call in a session gives what the call gives that is handed the chain,
  and leaves the chain as it was.
* `resolve_induct`: what holds of every call, because it holds of a call if it holds of the calls
  that it makes.
-/

namespace InterfaceLang.Imports

/-- The moments of resolving a file, and the outcome. -/
def traceFile (disk : Disk) (depth : Nat) (chain : List Path) (u : SourceUnit) (st : Progress) :
    List Moment × Except Failure Model × Progress :=
  (((⟨chain, st⟩ : Session).resolveFile disk u).moments depth, resolveFile disk chain u st)

/-- The moments of following imports, and the outcome. -/
def traceImports (disk : Disk) (depth : Nat) (chain : List Path) (u : SourceUnit)
    (imports : List Directive) (m : Model) (st : Progress) :
    List Moment × Except Failure Model × Progress :=
  (((⟨chain, st⟩ : Session).resolveImports disk u imports m).moments depth,
    resolveImports disk chain u imports m st)

/-! ## Calls in a session -/

namespace Session

section Equations

variable {disk : Disk} {s s' : Session} {u : SourceUnit} {m : Model} {d : Directive}
  {rest : List Directive} {f : Failure} {ms : Nat → List Moment} {es : List Event} {text : String}

/-- A file that cannot be loaded ends the call before anything enters the chain. -/
theorem resolveFile_of_load_error (hload : u.load = (.error f, es)) :
    resolveFile disk u s = ⟨.error f, s.log (.resolving u.path.text :: es),
      fun depth => [s.moment depth (.resolve u)], rfl⟩ := by
  rw [resolveFile, hload]

/-- When the imports fail, so does the file, and it leaves the chain. -/
theorem resolveFile_of_imports_error {imports : List Directive}
    {h : s'.chain = (((s.log (.resolving u.path.text :: es)).addFile u.path).push u.path).chain}
    (hload : u.load = (.ok (m, imports), es))
    (himports : resolveImports disk u imports m
      (((s.log (.resolving u.path.text :: es)).addFile u.path).push u.path) =
        ⟨.error f, s', ms, h⟩) :
    resolveFile disk u s = ⟨.error f, s'.pop,
      fun depth => s.moment depth (.resolve u) :: ms depth, chain_pop h⟩ := by
  rw [resolveFile, hload]
  simp only [himports]

/-- When the imports succeed, the file leaves the chain and claims its namespace. -/
theorem resolveFile_of_imports_ok {imports : List Directive} {m' : Model}
    {h : s'.chain = (((s.log (.resolving u.path.text :: es)).addFile u.path).push u.path).chain}
    (hload : u.load = (.ok (m, imports), es))
    (himports : resolveImports disk u imports m
      (((s.log (.resolving u.path.text :: es)).addFile u.path).push u.path) =
        ⟨.ok m', s', ms, h⟩) :
    resolveFile disk u s = ⟨(claim u m' s'.progress).1, s'.pop.advance (claim u m' s'.progress).2,
      fun depth => s.moment depth (.resolve u) :: ms depth, chain_pop h⟩ := by
  rw [resolveFile, hload]
  simp only [himports]

theorem resolveImports_nil :
    resolveImports disk u [] m s = ⟨.ok m, s, fun _ => [], rfl⟩ := by
  rw [resolveImports]

/-- An import that is on the chain closes a ring: nothing is read. -/
theorem resolveImports_of_onChain (hchain : onChain s.chain (u.path.target d.path) = true) :
    resolveImports disk u (d :: rest) m s =
      ⟨.error (.ofImport
          (.circularImport (cycleOf s.chain (u.path.target d.path)) (u.spotOf d))),
        s, fun depth => [s.moment depth (.examine u d)], rfl⟩ := by
  rw [resolveImports, dif_pos hchain]

/-- An import that is included already is passed over. -/
theorem resolveImports_of_included (hchain : ¬onChain s.chain (u.path.target d.path) = true)
    (hinc : s.registry.includes (u.path.target d.path) = true) :
    resolveImports disk u (d :: rest) m s =
      (resolveImports disk u rest m
        (s.log [.alreadyIncluded u.path.text (u.path.target d.path).text])).since
          (chain_log s _) fun depth => [s.moment depth (.examine u d)] := by
  rw [resolveImports, dif_neg hchain, if_pos hinc]

/-- An import that cannot be read has been examined and asked for, and ends the call. -/
theorem resolveImports_of_read_error {cause : ReadFailure}
    (hchain : ¬onChain s.chain (u.path.target d.path) = true)
    (hinc : ¬s.registry.includes (u.path.target d.path) = true)
    (hread : disk.read (u.path.target d.path) = .error cause) :
    resolveImports disk u (d :: rest) m s =
      ⟨.error (.ofImport (.moduleNotFound d.path (u.path.target d.path).text (.reading cause)
          (u.spotOf d))), s,
        fun depth => [s.moment depth (.examine u d),
          s.moment depth (.read (u.path.target d.path))], rfl⟩ := by
  rw [resolveImports, dif_neg hchain, if_neg hinc]
  split <;> rename_i hread' <;> rw [hread] at hread' <;> cases hread'
  rfl

/-- The failure of an imported file ends the call, moved to the directive if it is a clash. -/
theorem resolveImports_of_file_error
    {h : s'.chain = (s.log [.importing u.path.text (u.path.target d.path).text]).chain}
    (hchain : ¬onChain s.chain (u.path.target d.path) = true)
    (hinc : ¬s.registry.includes (u.path.target d.path) = true)
    (hread : disk.read (u.path.target d.path) = .ok text)
    (hfile : resolveFile disk ⟨u.path.target d.path, (u.path.target d.path).text, text⟩
      (s.log [.importing u.path.text (u.path.target d.path).text]) = ⟨.error f, s', ms, h⟩) :
    resolveImports disk u (d :: rest) m s =
      ⟨.error (relocate u d (u.path.target d.path) f), s',
        fun depth => s.moment depth (.examine u d) ::
          s.moment depth (.read (u.path.target d.path)) :: ms (depth + 1),
        h.trans (chain_log s _)⟩ := by
  rw [resolveImports, dif_neg hchain, if_neg hinc]
  split <;> rename_i hread' <;> rw [hread] at hread' <;> cases hread'
  simp only [hfile]

/-- An imported file is merged before the other imports are followed. -/
theorem resolveImports_of_file_ok {sub : Model}
    {h : s'.chain = (s.log [.importing u.path.text (u.path.target d.path).text]).chain}
    (hchain : ¬onChain s.chain (u.path.target d.path) = true)
    (hinc : ¬s.registry.includes (u.path.target d.path) = true)
    (hread : disk.read (u.path.target d.path) = .ok text)
    (hfile : resolveFile disk ⟨u.path.target d.path, (u.path.target d.path).text, text⟩
      (s.log [.importing u.path.text (u.path.target d.path).text]) = ⟨.ok sub, s', ms, h⟩) :
    resolveImports disk u (d :: rest) m s =
      (resolveImports disk u rest (m.merge sub) (s'.log [sub.mergeEvent])).since
        ((chain_log s' _).trans (h.trans (chain_log s _)))
        fun depth => s.moment depth (.examine u d) ::
          s.moment depth (.read (u.path.target d.path)) :: ms (depth + 1) ++
            [s'.moment depth (.merge sub)] := by
  rw [resolveImports, dif_neg hchain, if_neg hinc]
  split <;> rename_i hread' <;> rw [hread] at hread' <;> cases hread'
  simp only [hfile]

end Equations

/-- The run of a call in terms of its outcome: the chain is the one the call began with. -/
theorem Ended.run_eq {s : Session} (e : Ended s) :
    e.run = (e.outcome.1, ⟨s.chain, e.outcome.2⟩) := by
  rw [← e.chain_eq]
  rfl

/-- A call in a session gives what a call that is handed the chain gives, and leaves the chain as it
was. -/
theorem run_resolveFile (disk : Disk) (u : SourceUnit) (s : Session) :
    (s.resolveFile disk u).run = ((Imports.resolveFile disk s.chain u s.progress).1,
      ⟨s.chain, (Imports.resolveFile disk s.chain u s.progress).2⟩) :=
  (s.resolveFile disk u).run_eq

end Session

section Calls

variable {disk : Disk} {depth : Nat} {chain : List Path} {u : SourceUnit} {st st' : Progress}
  {m sub : Model} {imports : List Directive} {d : Directive} {rest : List Directive} {p : Path}
  {f : Failure} {es : List Event} {text : String}

/-! ## Outcomes -/

theorem resolveFile_of_load_error (hload : u.load = (.error f, es)) :
    resolveFile disk chain u st = (.error f, st.log (.resolving u.path.text :: es)) :=
  congrArg Session.Ended.outcome (Session.resolveFile_of_load_error hload)

/-- A file that can be loaded is included, and claims its namespace once its imports have been
followed with it at the end of the chain. -/
theorem resolveFile_of_load_ok (hload : u.load = (.ok (m, imports), es)) :
    resolveFile disk chain u st =
      match resolveImports disk (chain ++ [u.path]) u imports m
          ((st.log (.resolving u.path.text :: es)).addFile u.path) with
      | (.error f, st) => (.error f, st)
      | (.ok m, st) => claim u m st := by
  rcases himports : Session.resolveImports disk u imports m
    ((((⟨chain, st⟩ : Session).log (.resolving u.path.text :: es)).addFile u.path).push u.path)
    with ⟨result, s', ms, h⟩
  have houtcome : resolveImports disk (chain ++ [u.path]) u imports m
      ((st.log (.resolving u.path.text :: es)).addFile u.path) = (result, s'.progress) :=
    congrArg Session.Ended.outcome himports
  rw [houtcome]
  cases result with
  | error f =>
    exact congrArg Session.Ended.outcome (Session.resolveFile_of_imports_error hload himports)
  | ok m' =>
    exact congrArg Session.Ended.outcome (Session.resolveFile_of_imports_ok hload himports)

theorem resolveImports_nil : resolveImports disk chain u [] m st = (.ok m, st) :=
  congrArg Session.Ended.outcome Session.resolveImports_nil

theorem resolveImports_of_onChain (hchain : onChain chain (u.path.target d.path) = true) :
    resolveImports disk chain u (d :: rest) m st =
      (.error (.ofImport (.circularImport (cycleOf chain (u.path.target d.path)) (u.spotOf d))),
        st) :=
  congrArg Session.Ended.outcome (Session.resolveImports_of_onChain (s := ⟨chain, st⟩) hchain)

theorem resolveImports_of_included (hchain : ¬onChain chain (u.path.target d.path) = true)
    (hinc : st.registry.includes (u.path.target d.path) = true) :
    resolveImports disk chain u (d :: rest) m st = resolveImports disk chain u rest m
      (st.log [.alreadyIncluded u.path.text (u.path.target d.path).text]) :=
  congrArg Session.Ended.outcome
    (Session.resolveImports_of_included (s := ⟨chain, st⟩) hchain hinc)

theorem resolveImports_of_read_error {cause : ReadFailure}
    (hchain : ¬onChain chain (u.path.target d.path) = true)
    (hinc : ¬st.registry.includes (u.path.target d.path) = true)
    (hread : disk.read (u.path.target d.path) = .error cause) :
    resolveImports disk chain u (d :: rest) m st =
      (.error (.ofImport (.moduleNotFound d.path (u.path.target d.path).text (.reading cause)
        (u.spotOf d))), st) :=
  congrArg Session.Ended.outcome
    (Session.resolveImports_of_read_error (s := ⟨chain, st⟩) hchain hinc hread)

/-- An import that is met for the first time is resolved and merged, and the other imports are
followed with what came out. -/
theorem resolveImports_of_read_ok (htarget : u.path.target d.path = p)
    (hchain : ¬onChain chain p = true) (hinc : ¬st.registry.includes p = true)
    (hread : disk.read p = .ok text) :
    resolveImports disk chain u (d :: rest) m st =
      match resolveFile disk chain ⟨p, p.text, text⟩ (st.log [.importing u.path.text p.text]) with
      | (.error f, st') => (.error (relocate u d p f), st')
      | (.ok sub, st') =>
        resolveImports disk chain u rest (m.merge sub) (st'.log [sub.mergeEvent]) := by
  subst htarget
  rcases hfile : Session.resolveFile disk
    ⟨u.path.target d.path, (u.path.target d.path).text, text⟩
    ((⟨chain, st⟩ : Session).log [.importing u.path.text (u.path.target d.path).text])
    with ⟨result, ⟨chain', st'⟩, ms, h⟩
  obtain rfl : chain' = chain := h
  have houtcome : resolveFile disk chain' _ (st.log _) = (result, st') :=
    congrArg Session.Ended.outcome hfile
  rw [houtcome]
  cases result with
  | error f =>
    exact congrArg Session.Ended.outcome
      (Session.resolveImports_of_file_error (s := ⟨_, st⟩) hchain hinc hread hfile)
  | ok sub =>
    exact congrArg Session.Ended.outcome
      (Session.resolveImports_of_file_ok (s := ⟨_, st⟩) hchain hinc hread hfile)

theorem resolveFile_of_imports_error (hload : u.load = (.ok (m, imports), es))
    (himports : resolveImports disk (chain ++ [u.path]) u imports m
      ((st.log (.resolving u.path.text :: es)).addFile u.path) = (.error f, st')) :
    resolveFile disk chain u st = (.error f, st') := by
  rw [resolveFile_of_load_ok hload, himports]

theorem resolveFile_of_imports_ok {m' : Model} (hload : u.load = (.ok (m, imports), es))
    (himports : resolveImports disk (chain ++ [u.path]) u imports m
      ((st.log (.resolving u.path.text :: es)).addFile u.path) = (.ok m', st')) :
    resolveFile disk chain u st = claim u m' st' := by
  rw [resolveFile_of_load_ok hload, himports]

/-- Resolving a file that can be loaded ends as following its imports does, or with the claim of its
namespace. -/
theorem resolveFile_cases (disk : Disk) (chain : List Path) (st : Progress)
    (hload : u.load = (.ok (m, imports), es)) :
    (∃ f st', resolveImports disk (chain ++ [u.path]) u imports m
        ((st.log (.resolving u.path.text :: es)).addFile u.path) = (.error f, st') ∧
      resolveFile disk chain u st = (.error f, st')) ∨
    ∃ m' st', resolveImports disk (chain ++ [u.path]) u imports m
        ((st.log (.resolving u.path.text :: es)).addFile u.path) = (.ok m', st') ∧
      resolveFile disk chain u st = claim u m' st' := by
  rw [resolveFile_of_load_ok hload]
  split
  · next himports => exact .inl ⟨_, _, himports, rfl⟩
  · next himports => exact .inr ⟨_, _, himports, rfl⟩

/-- Following imports whose first one can be read ends as resolving the file does, up to the place
of a clash, or as following the other imports does. -/
theorem resolveImports_cases (m : Model) (rest : List Directive)
    (htarget : u.path.target d.path = p) (hchain : ¬onChain chain p = true)
    (hinc : ¬st.registry.includes p = true)
    (hread : disk.read p = .ok text) :
    (∃ f st', resolveFile disk chain ⟨p, p.text, text⟩ (st.log [.importing u.path.text p.text]) =
        (.error f, st') ∧
      resolveImports disk chain u (d :: rest) m st = (.error (relocate u d p f), st')) ∨
    ∃ sub st', resolveFile disk chain ⟨p, p.text, text⟩ (st.log [.importing u.path.text p.text]) =
        (.ok sub, st') ∧
      resolveImports disk chain u (d :: rest) m st =
        resolveImports disk chain u rest (m.merge sub) (st'.log [sub.mergeEvent]) := by
  rw [resolveImports_of_read_ok htarget hchain hinc hread]
  split
  · next hfile => exact .inl ⟨_, _, hfile, rfl⟩
  · next hfile => exact .inr ⟨_, _, hfile, rfl⟩

/-! ## Moments -/

/-- A file that cannot be loaded has one moment, its own. -/
theorem moments_of_load_error (hload : u.load = (.error f, es)) :
    (traceFile disk depth chain u st).1 = [⟨depth, chain, st.registry, .resolve u⟩] :=
  congrArg (Session.Ended.moments · depth)
    (Session.resolveFile_of_load_error (s := ⟨chain, st⟩) hload)

/-- The moments of a file are its own and those of its imports. -/
theorem moments_of_load_ok (hload : u.load = (.ok (m, imports), es)) :
    (traceFile disk depth chain u st).1 = ⟨depth, chain, st.registry, .resolve u⟩ ::
      (traceImports disk depth (chain ++ [u.path]) u imports m
        ((st.log (.resolving u.path.text :: es)).addFile u.path)).1 := by
  rcases himports : Session.resolveImports disk u imports m
    ((((⟨chain, st⟩ : Session).log (.resolving u.path.text :: es)).addFile u.path).push u.path)
    with ⟨result, s', ms, h⟩
  have hmoments : (traceImports disk depth (chain ++ [u.path]) u imports m
      ((st.log (.resolving u.path.text :: es)).addFile u.path)).1 = ms depth :=
    congrArg (Session.Ended.moments · depth) himports
  rw [hmoments]
  cases result with
  | error f =>
    exact congrArg (Session.Ended.moments · depth)
      (Session.resolveFile_of_imports_error hload himports)
  | ok m' =>
    exact congrArg (Session.Ended.moments · depth)
      (Session.resolveFile_of_imports_ok hload himports)

theorem moments_nil : (traceImports disk depth chain u [] m st).1 = [] :=
  congrArg (Session.Ended.moments · depth) (Session.resolveImports_nil (s := ⟨chain, st⟩))

theorem moments_of_onChain (hchain : onChain chain (u.path.target d.path) = true) :
    (traceImports disk depth chain u (d :: rest) m st).1 =
      [⟨depth, chain, st.registry, .examine u d⟩] :=
  congrArg (Session.Ended.moments · depth)
    (Session.resolveImports_of_onChain (s := ⟨chain, st⟩) hchain)

/-- An import that is passed over is examined only. -/
theorem moments_of_included (hchain : ¬onChain chain (u.path.target d.path) = true)
    (hinc : st.registry.includes (u.path.target d.path) = true) :
    (traceImports disk depth chain u (d :: rest) m st).1 =
      ⟨depth, chain, st.registry, .examine u d⟩ :: (traceImports disk depth chain u rest m
        (st.log [.alreadyIncluded u.path.text (u.path.target d.path).text])).1 :=
  congrArg (Session.Ended.moments · depth)
    (Session.resolveImports_of_included (s := ⟨chain, st⟩) hchain hinc)

theorem moments_of_read_error {cause : ReadFailure}
    (hchain : ¬onChain chain (u.path.target d.path) = true)
    (hinc : ¬st.registry.includes (u.path.target d.path) = true)
    (hread : disk.read (u.path.target d.path) = .error cause) :
    (traceImports disk depth chain u (d :: rest) m st).1 =
      [⟨depth, chain, st.registry, .examine u d⟩,
        ⟨depth, chain, st.registry, .read (u.path.target d.path)⟩] :=
  congrArg (Session.Ended.moments · depth)
    (Session.resolveImports_of_read_error (s := ⟨chain, st⟩) hchain hinc hread)

/-- The moments of an imported file that fails are the last ones. -/
theorem moments_of_file_error (htarget : u.path.target d.path = p)
    (hchain : ¬onChain chain p = true) (hinc : ¬st.registry.includes p = true)
    (hread : disk.read p = .ok text)
    (hfile : resolveFile disk chain ⟨p, p.text, text⟩ (st.log [.importing u.path.text p.text]) =
      (.error f, st')) :
    (traceImports disk depth chain u (d :: rest) m st).1 =
      ⟨depth, chain, st.registry, .examine u d⟩ :: ⟨depth, chain, st.registry, .read p⟩ ::
        (traceFile disk (depth + 1) chain ⟨p, p.text, text⟩
          (st.log [.importing u.path.text p.text])).1 := by
  subst htarget
  rcases hended : Session.resolveFile disk
    ⟨u.path.target d.path, (u.path.target d.path).text, text⟩
    ((⟨chain, st⟩ : Session).log [.importing u.path.text (u.path.target d.path).text])
    with ⟨result, s', ms, h⟩
  obtain rfl : result = .error f :=
    (congrArg Session.Ended.result hended).symm.trans (congrArg Prod.fst hfile)
  have hmoments : (traceFile disk (depth + 1) chain _ (st.log _)).1 = ms (depth + 1) :=
    congrArg (Session.Ended.moments · (depth + 1)) hended
  rw [hmoments]
  exact congrArg (Session.Ended.moments · depth)
    (Session.resolveImports_of_file_error (s := ⟨chain, st⟩) hchain hinc hread hended)

/-- The moments of an imported file lie one level deeper, between its reading and its merging. -/
theorem moments_of_file_ok (htarget : u.path.target d.path = p)
    (hchain : ¬onChain chain p = true) (hinc : ¬st.registry.includes p = true)
    (hread : disk.read p = .ok text)
    (hfile : resolveFile disk chain ⟨p, p.text, text⟩ (st.log [.importing u.path.text p.text]) =
      (.ok sub, st')) :
    (traceImports disk depth chain u (d :: rest) m st).1 =
      ⟨depth, chain, st.registry, .examine u d⟩ :: ⟨depth, chain, st.registry, .read p⟩ ::
        (traceFile disk (depth + 1) chain ⟨p, p.text, text⟩
          (st.log [.importing u.path.text p.text])).1 ++
        ⟨depth, chain, st'.registry, .merge sub⟩ ::
          (traceImports disk depth chain u rest (m.merge sub) (st'.log [sub.mergeEvent])).1 := by
  subst htarget
  rcases hended : Session.resolveFile disk
    ⟨u.path.target d.path, (u.path.target d.path).text, text⟩
    ((⟨chain, st⟩ : Session).log [.importing u.path.text (u.path.target d.path).text])
    with ⟨result, ⟨chain', st''⟩, ms, h⟩
  obtain rfl : chain' = chain := h
  have houtcome : (result, st'') = (.ok sub, st') :=
    (congrArg Session.Ended.outcome hended).symm.trans hfile
  cases houtcome
  have hmoments : (traceFile disk (depth + 1) chain' _ (st.log _)).1 = ms (depth + 1) :=
    congrArg (Session.Ended.moments · (depth + 1)) hended
  rw [hmoments, List.append_cons]
  exact congrArg (Session.Ended.moments · depth)
    (Session.resolveImports_of_file_ok (s := ⟨chain', st⟩) hchain hinc hread hended)

/-- The first of the directives that are left is examined. -/
theorem mem_moments_cons (disk : Disk) (depth : Nat) (chain : List Path) (u : SourceUnit)
    (d : Directive) (rest : List Directive) (m : Model) (st : Progress) :
    ⟨depth, chain, st.registry, .examine u d⟩ ∈
      (traceImports disk depth chain u (d :: rest) m st).1 := by
  by_cases hchain : onChain chain (u.path.target d.path) = true
  · simp [moments_of_onChain hchain]
  by_cases hinc : st.registry.includes (u.path.target d.path) = true
  · simp [moments_of_included hchain hinc]
  cases hread : disk.read (u.path.target d.path) with
  | error cause => simp [moments_of_read_error hchain hinc hread]
  | ok text =>
    cases hfile : resolveFile disk chain
        ⟨u.path.target d.path, (u.path.target d.path).text, text⟩
        (st.log [.importing u.path.text (u.path.target d.path).text]) with
    | mk result st' =>
      cases result with
      | error f => simp [moments_of_file_error rfl hchain hinc hread hfile]
      | ok sub => simp [moments_of_file_ok rfl hchain hinc hread hfile]

end Calls

/-! ## Root files -/

/-- A root that can be located is resolved as a file to which no chain leads, under its name. -/
theorem resolve_eq_of_locate {disk : Disk} {baseDir : Option Path} {name text : String}
    {path : Path} (h : locate disk baseDir ⟨name⟩ = .ok path) :
    (resolve disk baseDir name text).1 =
      (resolveFile disk [] ⟨path, name, text⟩ .start).1.map fun m => { m with file := name } := by
  unfold resolve
  rw [h]
  cases hfile : resolveFile disk [] ⟨path, name, text⟩ .start with
  | mk result st => cases result <;> simp only [hfile] <;> rfl

/-! ## Induction over calls -/

/-- What holds of every call for a file (`File`) and of every call that follows imports (`Imports`):
it is enough that it holds of a call if it holds of the calls that this one makes. The merged model
and the state with which the imports after the first one are followed are those that the call for
the first one has given. -/
theorem resolve_induct (disk : Disk) (File : List Path → SourceUnit → Progress → Prop)
    (Imports : List Path → SourceUnit → List Directive → Model → Progress → Prop)
    (load_error : ∀ chain u st f es, u.load = (.error f, es) → File chain u st)
    (load_ok : ∀ chain u st m imports es, u.load = (.ok (m, imports), es) →
      Imports (chain ++ [u.path]) u imports m
        ((st.log (.resolving u.path.text :: es)).addFile u.path) → File chain u st)
    (nil : ∀ chain u m st, Imports chain u [] m st)
    (on_chain : ∀ chain u d rest m st, onChain chain (u.path.target d.path) = true →
      Imports chain u (d :: rest) m st)
    (included : ∀ chain u d rest m st, ¬onChain chain (u.path.target d.path) = true →
      st.registry.includes (u.path.target d.path) = true →
      Imports chain u rest m (st.log [.alreadyIncluded u.path.text (u.path.target d.path).text]) →
      Imports chain u (d :: rest) m st)
    (read_error : ∀ chain u d rest m st cause, ¬onChain chain (u.path.target d.path) = true →
      ¬st.registry.includes (u.path.target d.path) = true →
      disk.read (u.path.target d.path) = .error cause → Imports chain u (d :: rest) m st)
    (read_ok : ∀ chain u d rest m st p text, u.path.target d.path = p → ¬onChain chain p = true →
      ¬st.registry.includes p = true → disk.read p = .ok text →
      File chain ⟨p, p.text, text⟩ (st.log [.importing u.path.text p.text]) →
      (∀ sub st', resolveFile disk chain ⟨p, p.text, text⟩
          (st.log [.importing u.path.text p.text]) = (.ok sub, st') →
        Imports chain u rest (m.merge sub) (st'.log [sub.mergeEvent])) →
      Imports chain u (d :: rest) m st) :
    (∀ chain u st, File chain u st) ∧
      ∀ chain u imports m st, Imports chain u imports m st := by
  have hinduct := Session.resolveFile.mutual_induct disk (fun u s => File s.chain u s.progress)
    (fun u imports m s => Imports s.chain u imports m s.progress)
    ?load_error ?imports_error ?imports_ok ?nil ?on_chain ?included ?read_error ?file_error ?file_ok
  · exact ⟨fun chain u st => hinduct.1 u ⟨chain, st⟩,
      fun chain u imports m st => hinduct.2 u imports m ⟨chain, st⟩⟩
  case load_error =>
    intro u s f es hload
    exact load_error _ _ _ _ _ hload
  -- whether following the imports of a file fails or not makes no difference here
  case imports_error =>
    intro u s m imports es hload f s' ms h _ ih
    exact load_ok _ _ _ _ _ _ hload ih
  case imports_ok =>
    intro u s m imports es hload m' s' ms h _ ih
    exact load_ok _ _ _ _ _ _ hload ih
  case nil =>
    intro u m s
    exact nil _ _ _ _
  case on_chain =>
    intro u m s d rest hchain
    exact on_chain _ _ _ _ _ _ hchain
  case included =>
    intro u m s d rest hchain hinc ih
    exact included _ _ _ _ _ _ hchain hinc ih
  case read_error =>
    intro u m s d rest hchain hinc cause hread
    exact read_error _ _ _ _ _ _ _ hchain hinc hread
  case file_error =>
    intro u m s d rest hchain hinc text hread f s' ms h hended ih
    refine read_ok _ _ _ _ _ _ _ _ rfl hchain hinc hread ih fun sub st' hok => ?_
    have hresult : (.error f : Except Failure Model) = .ok sub :=
      (congrArg Session.Ended.result hended).symm.trans (congrArg Prod.fst hok)
    cases hresult
  case file_ok =>
    intro u m s d rest hchain hinc text hread sub s' ms h hended ihfile ihrest
    refine read_ok _ _ _ _ _ _ _ _ rfl hchain hinc hread ihfile fun sub' st' hok => ?_
    have houtcome : ((.ok sub, s'.progress) : Except Failure Model × Progress) = (.ok sub', st') :=
      (congrArg Session.Ended.outcome hended).symm.trans hok
    cases houtcome
    -- the call for the imported file has given back the chain
    have hchain' : (s'.log [sub.mergeEvent]).chain = s.chain := h
    rw [hchain'] at ihrest
    exact ihrest

end InterfaceLang.Imports
