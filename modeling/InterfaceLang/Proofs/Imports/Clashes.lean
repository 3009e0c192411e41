import InterfaceLang.Proofs.Imports.Invariant
import InterfaceLang.Proofs.Imports.Frame

/-!
# Reported clashes over a namespace

A file claims its namespace when all its imports have been followed. So both files of a clash are
settled: they are read and lowered, and no cycle can be reached from either of them. The clash is
reported at the file that claims second, and on the way up the report passes through the import
directives of the chain. Exactly one of them leads to that file, the last one, and it is pointed at;
no directive that was examined before leads there, since its target would have been included.

Results:
* `includes_of_imports`: what a call that succeeds has imported is included after it.
* `clashes`: a clash that a call reports is one, and it is reported where the second file is
  imported first.
* `duplicateNamespace_truthful`: the same of the resolution of a root.
-/

namespace InterfaceLang.Imports

/-- Two files that can be reached, both declare the namespace `ns`, and neither lies on an import
cycle or leads to one. -/
structure Graph.Clash (g : Graph) (ns : String) (p q : Path) : Prop where
  distinct : p ≠ q
  normal : p.IsNormalForm ∧ q.IsNormalForm
  reachable : g.Reachable p ∧ g.Reachable q
  declares : g.Declares p ns ∧ g.Declares q ns
  acyclic : ∀ x, Relation.ReflTransGen g.Edge p x ∨ Relation.ReflTransGen g.Edge q x →
    ¬Relation.TransGen g.Edge x x

/-- At this moment a directive that leads to `p` is examined. -/
def Moment.LeadsTo (mo : Moment) (p : Path) : Prop :=
  ∃ u d, mo.action = .examine u d ∧ u.path.target d.path = p

/-- Of the directives that are examined, the directive `d` of `u` is the first that leads to `p`. -/
def FirstImport (ms : List Moment) (p : Path) (u : SourceUnit) (d : Directive) : Prop :=
  ∃ before mo after, ms = before ++ mo :: after ∧ (∀ a ∈ before, ¬a.LeadsTo p) ∧
    mo.action = .examine u d ∧ u.path.target d.path = p

/-! ## Moments of an import -/

section Moments

variable {depth : Nat} {chain : List Path} {r : Registry} {u : SourceUnit} {d : Directive}
  {p q : Path} {sub : Model} {mo : Moment} {ms ms' : List Moment}

@[simp]
theorem leadsTo_examine :
    (⟨depth, chain, r, .examine u d⟩ : Moment).LeadsTo p ↔ u.path.target d.path = p := by
  constructor
  · rintro ⟨_, _, ⟨⟩, htarget⟩
    exact htarget
  · exact fun htarget => ⟨u, d, rfl, htarget⟩

@[simp]
theorem not_leadsTo_resolve : ¬(⟨depth, chain, r, .resolve u⟩ : Moment).LeadsTo p := by
  rintro ⟨_, _, ⟨⟩, _⟩

@[simp]
theorem not_leadsTo_read : ¬(⟨depth, chain, r, .read q⟩ : Moment).LeadsTo p := by
  rintro ⟨_, _, ⟨⟩, _⟩

@[simp]
theorem not_leadsTo_merge : ¬(⟨depth, chain, r, .merge sub⟩ : Moment).LeadsTo p := by
  rintro ⟨_, _, ⟨⟩, _⟩

/-- Moments that do not lead to the file may come before its first import. -/
theorem FirstImport.append (hms : ∀ a ∈ ms, ¬a.LeadsTo p) (h : FirstImport ms' p u d) :
    FirstImport (ms ++ ms') p u d := by
  obtain ⟨before, mo, after, rfl, hbefore, haction⟩ := h
  exact ⟨ms ++ before, mo, after, (List.append_assoc ..).symm,
    List.forall_mem_append.2 ⟨hms, hbefore⟩, haction⟩

theorem FirstImport.cons (hmo : ¬mo.LeadsTo p) (h : FirstImport ms p u d) :
    FirstImport (mo :: ms) p u d :=
  h.append (List.forall_mem_singleton.2 hmo)

theorem firstImport_head (htarget : u.path.target d.path = p) :
    FirstImport (⟨depth, chain, r, .examine u d⟩ :: ms) p u d :=
  ⟨[], _, ms, rfl, by simp, rfl, htarget⟩

end Moments

/-! ## What has been imported is included -/

/-- After a success, what was imported at the moments is included. -/
def Included (result : Except Failure Model × Progress) (ms : List Moment) : Prop :=
  ∀ m st, result = (.ok m, st) → ∀ mo ∈ ms, ∀ p, mo.LeadsTo p → st.registry.includes p = true

section Included

variable {disk : Disk} {depth : Nat} {chain : List Path} {u : SourceUnit} {st st' : Progress}
  {m m' sub : Model} {d : Directive} {rest : List Directive} {p : Path}

/-- A file that has been resolved is included. -/
theorem includes_of_resolveFile (h : resolveFile disk chain u st = (.ok m, st')) :
    st'.registry.includes u.path = true := by
  obtain ⟨_, _, _, hpassed⟩ := (course_of_resolve disk).1 chain u st 0
  exact (hpassed m st' h).later.includes _ (includes_addFile _ _)

theorem included_of_load_ok {imports : List Directive} {es : List Event}
    (hload : u.load = (.ok (m, imports), es))
    (ih : Included (resolveImports disk (chain ++ [u.path]) u imports m
        ((st.log (.resolving u.path.text :: es)).addFile u.path))
      (traceImports disk depth (chain ++ [u.path]) u imports m
        ((st.log (.resolving u.path.text :: es)).addFile u.path)).1) :
    Included (resolveFile disk chain u st) (traceFile disk depth chain u st).1 := by
  intro m' st' hok
  rw [moments_of_load_ok hload]
  rcases resolveFile_cases disk chain st hload with
    ⟨f, st'', _, hfile⟩ | ⟨m'', st'', himports, hfile⟩ <;> rw [hfile] at hok
  · cases hok
  · refine List.forall_mem_cons.2 ⟨fun p hp => absurd hp not_leadsTo_resolve, fun mo hmo p hp => ?_⟩
    exact (later_claim hok).includes p (ih m'' st'' himports mo hmo p hp)

theorem included_of_skip (hchain : ¬onChain chain (u.path.target d.path) = true)
    (hinc : st.registry.includes (u.path.target d.path) = true)
    (ih : Included (resolveImports disk chain u rest m
        (st.log [.alreadyIncluded u.path.text (u.path.target d.path).text]))
      (traceImports disk depth chain u rest m
        (st.log [.alreadyIncluded u.path.text (u.path.target d.path).text])).1) :
    Included (resolveImports disk chain u (d :: rest) m st)
      (traceImports disk depth chain u (d :: rest) m st).1 := by
  intro m' st' hok
  rw [resolveImports_of_included hchain hinc] at hok
  rw [moments_of_included hchain hinc]
  refine List.forall_mem_cons.2 ⟨fun p hp => ?_, ih m' st' hok⟩
  rw [← leadsTo_examine.1 hp]
  exact (later_of_resolveImports hok).includes _ hinc

/-- The imported file itself is included, and what came before stays so. -/
theorem included_of_read_ok {text : String} (htarget : u.path.target d.path = p)
    (hchain : ¬onChain chain p = true) (hinc : ¬st.registry.includes p = true)
    (hread : disk.read p = .ok text)
    (hfile : resolveFile disk chain ⟨p, p.text, text⟩ (st.log [.importing u.path.text p.text]) =
      (.ok sub, st'))
    (ihfile : Included (.ok sub, st') (traceFile disk (depth + 1) chain ⟨p, p.text, text⟩
      (st.log [.importing u.path.text p.text])).1)
    (ihrest : Included (resolveImports disk chain u rest (m.merge sub) (st'.log [sub.mergeEvent]))
      (traceImports disk depth chain u rest (m.merge sub) (st'.log [sub.mergeEvent])).1) :
    Included (resolveImports disk chain u (d :: rest) m st)
      (traceImports disk depth chain u (d :: rest) m st).1 := by
  intro m' st'' hok
  rw [resolveImports_of_read_ok htarget hchain hinc hread, hfile] at hok
  change resolveImports disk chain u rest (m.merge sub) (st'.log [sub.mergeEvent]) = _ at hok
  have hown := includes_of_resolveFile hfile
  have hlater := later_of_resolveImports hok
  rw [moments_of_file_ok htarget hchain hinc hread hfile, List.forall_mem_append,
    List.forall_mem_cons, List.forall_mem_cons, List.forall_mem_cons]
  refine ⟨⟨fun q hq => ?_, fun q hq => absurd hq not_leadsTo_read, fun mo hmo q hq => ?_⟩,
    fun q hq => absurd hq not_leadsTo_merge, ihrest m' st'' hok⟩
  · rw [← leadsTo_examine.1 hq, htarget]
    exact hlater.includes p hown
  · exact hlater.includes q (ihfile sub st' rfl mo hmo q hq)

end Included

/-- What a call that succeeds has imported is included after it. -/
theorem includes_of_imports (disk : Disk) :
    (∀ chain u st, ∀ depth,
      Included (resolveFile disk chain u st) (traceFile disk depth chain u st).1) ∧
    ∀ chain u imports m st, ∀ depth,
      Included (resolveImports disk chain u imports m st)
        (traceImports disk depth chain u imports m st).1 := by
  refine resolve_induct disk _ _
    ?load_error ?load_ok ?nil ?on_chain ?included ?read_error ?read_ok
  case load_error =>
    intro chain u st f es hload depth m st' hok
    rw [resolveFile_of_load_error hload] at hok
    cases hok
  case load_ok =>
    intro chain u st m imports es hload ih depth
    exact included_of_load_ok hload (ih depth)
  case nil =>
    intro chain u m st depth m' st' _ mo hmo
    rw [moments_nil] at hmo
    cases hmo
  case on_chain =>
    intro chain u d rest m st hchain depth m' st' hok
    rw [resolveImports_of_onChain hchain] at hok
    cases hok
  case included =>
    intro chain u d rest m st hchain hinc ih depth
    exact included_of_skip hchain hinc (ih depth)
  case read_error =>
    intro chain u d rest m st cause hchain hinc hread depth m' st' hok
    rw [resolveImports_of_read_error hchain hinc hread] at hok
    cases hok
  case read_ok =>
    intro chain u d rest m st p text htarget hchain hinc hread ihfile ihrest depth
    rcases resolveImports_cases m rest htarget hchain hinc hread with
      ⟨f, st', _, himports⟩ | ⟨sub, st', hfile, _⟩
    · intro m' st'' hok
      rw [himports] at hok
      cases hok
    · refine included_of_read_ok htarget hchain hinc hread hfile ?_ (ihrest sub st' hfile depth)
      have hsub := ihfile (depth + 1)
      rwa [hfile] at hsub

/-! ## Where a clash is reported -/

section Clashes

variable {g : Graph} {depth : Nat} {chain : List Path} {u : SourceUnit} {st st' : Progress}
  {m m' sub : Model} {d : Directive} {rest : List Directive} {p : Path}
  {ns first second : String} {spot : Spot}

/-- What is known when the claim of a file fails. -/
theorem claim_eq_duplicate
    (h : (claim u m st).1 = .error (.ofImport (.duplicateNamespace ns first second spot))) :
    m.rootNs = ns ∧ ns ≠ "" ∧ st.registry.owner? ns = some ⟨first⟩ ∧
      ¬(⟨first⟩ : Path).same u.path = true ∧ second = u.path.text ∧ spot = u.spot := by
  unfold claim at h
  split at h
  · cases h
  · next hns =>
    split at h
    · cases h
    · next owner howner =>
      cases h
      obtain ⟨hfirst, hsame⟩ := Registry.claim_eq_error howner
      exact ⟨rfl, hns, hfirst, hsame, rfl, rfl⟩

/-- A clash is handed on with its files; a directive that leads to the second one is pointed at. -/
theorem eq_of_relocate_duplicate {f : Failure}
    (h : relocate u d p f = .ofImport (.duplicateNamespace ns first second spot)) :
    ∃ spot', f = .ofImport (.duplicateNamespace ns first second spot') ∧
      spot = if second = p.text then u.spotOf d else spot' := by
  unfold relocate at h
  split at h
  · cases h
    exact ⟨_, rfl, rfl⟩
  · next hother => exact absurd h (hother _ _ _ _)

/-- The file that owns a namespace and a file that cannot claim it clash, if the imports of the
second one have been followed. -/
theorem clash_of_claim {own : Model} (h : Consistent g chain st.registry)
    (hu : u.path ∈ chain) (hm : g.lowered? u.path = some own) (hns : m.rootNs = own.rootNs)
    (himports : ∀ q, g.Edge u.path q → q ∈ st.registry.included ∧ q ∉ chain)
    (hclaim : (claim u m st).1 = .error (.ofImport (.duplicateNamespace ns first second spot))) :
    g.Clash ns ⟨first⟩ u.path := by
  obtain ⟨hroot, hne, howner, hsame, _, _⟩ := claim_eq_duplicate hclaim
  obtain ⟨hinc, hoff, m', hm', hns'⟩ := h.owners _ _ howner
  have huinc := h.chain_subset hu
  have hfirst := (h.settled _ hinc hoff).acyclic
  have hsecond : Acc (fun b a => g.Edge a b) u.path :=
    ⟨_, fun q hq => (h.settled q (himports q hq).1 (himports q hq).2).acyclic⟩
  exact {
    distinct := fun heq => hsame (by simp [heq, Path.same])
    normal := ⟨h.normal _ hinc, h.normal _ huinc⟩
    reachable := ⟨h.reachable _ hinc, h.reachable _ huinc⟩
    declares := ⟨(Graph.declares_iff hm' hne).2 hns', (Graph.declares_iff hm hne).2 (hns ▸ hroot)⟩
    acyclic := fun x hx => hx.elim (Walk.not_cycle_of_reaches hfirst)
      (Walk.not_cycle_of_reaches hsecond) }

/-- What a call for a file reports as a clash: the second file is this one, or one that is imported
first below it. -/
def FileClashes (g : Graph) (chain : List Path) (u : SourceUnit) (st : Progress) : Prop :=
  ∀ depth ns first second spot, FileReady g depth chain u st →
    (resolveFile g.disk chain u st).1 =
      .error (.ofImport (.duplicateNamespace ns first second spot)) →
    g.Clash ns ⟨first⟩ ⟨second⟩ ∧
      (⟨second⟩ = u.path ∧ spot = u.spot ∨
        ¬(st.registry.addFile u.path).includes ⟨second⟩ = true ∧
          ∃ v e, FirstImport (traceFile g.disk depth chain u st).1 ⟨second⟩ v e ∧
            spot = v.spotOf e)

/-- What a call for imports reports as a clash: the second file is imported first below it. -/
def ImportsClashes (g : Graph) (chain : List Path) (u : SourceUnit) (imports : List Directive)
    (m : Model) (st : Progress) : Prop :=
  ∀ depth ns first second spot, ImportsReady g depth chain u imports m st →
    (resolveImports g.disk chain u imports m st).1 =
      .error (.ofImport (.duplicateNamespace ns first second spot)) →
    g.Clash ns ⟨first⟩ ⟨second⟩ ∧ ¬st.registry.includes ⟨second⟩ = true ∧
      ∃ v e, FirstImport (traceImports g.disk depth chain u imports m st).1 ⟨second⟩ v e ∧
        spot = v.spotOf e

/-- A clash below a file is one that its imports report. -/
theorem fileClashes_of_imports_error {imports : List Directive} {es : List Event} {f : Failure}
    (hroot : g.root.path.IsNormalForm) (hload : u.load = (.ok (m, imports), es))
    (himports : resolveImports g.disk (chain ++ [u.path]) u imports m
      ((st.log (.resolving u.path.text :: es)).addFile u.path) = (.error f, st'))
    (ih : ImportsClashes g (chain ++ [u.path]) u imports m
      ((st.log (.resolving u.path.text :: es)).addFile u.path)) : FileClashes g chain u st := by
  intro depth ns first second spot hready h
  rw [resolveFile_of_load_ok hload, himports] at h
  obtain ⟨hclash, hnew, v, e, hfirst, hspot⟩ :=
    ih depth ns first second spot (hready.enter hroot hload) (by rw [himports]; exact h)
  rw [moments_of_load_ok hload]
  exact ⟨hclash, .inr ⟨hnew, v, e, hfirst.cons not_leadsTo_resolve, hspot⟩⟩

/-- A clash at a file is between it and the owner of its namespace. -/
theorem fileClashes_of_claim {imports : List Directive} {es : List Event}
    (hroot : g.root.path.IsNormalForm) (hload : u.load = (.ok (m, imports), es))
    (himports : resolveImports g.disk (chain ++ [u.path]) u imports m
      ((st.log (.resolving u.path.text :: es)).addFile u.path) = (.ok m', st')) :
    FileClashes g chain u st := by
  intro depth ns first second spot hready h
  rw [resolveFile_of_load_ok hload, himports] at h
  obtain ⟨_, _, _, _, hsecond, hspot⟩ := claim_eq_duplicate h
  obtain ⟨hm, hds⟩ := lowered?_of_load hready.unit hload
  have henter := hready.enter hroot hload
  rcases (resolve_spec g hroot).2 _ u imports m _ henter.unit henter.directives henter.trail
    henter.last henter.consistent with ⟨_, _, visited, hok, hdone⟩ | ⟨_, _, herror, _⟩
  · rw [himports] at hok
    cases hok
    have htargets : imports.map (fun d => u.path.target d.path) = g.targets u.path := by
      rw [hds]
      exact (Graph.targets_eq hready.unit).symm
    rw [htargets] at hdone
    have hsettled : ∀ q, g.Edge u.path q → q ∈ st'.registry.included ∧ q ∉ chain ++ [u.path] := by
      intro q hq
      rw [hdone.included]
      exact ⟨hdone.walk.pending_subset hq, hdone.off_chain q hq⟩
    subst hsecond
    exact ⟨clash_of_claim hdone.consistent (by simp) hm hdone.gathers.rootNs hsettled h,
      .inl ⟨rfl, hspot⟩⟩
  · rw [himports] at herror
    cases herror

theorem importsClashes_of_included (hchain : ¬onChain chain (u.path.target d.path) = true)
    (hinc : st.registry.includes (u.path.target d.path) = true)
    (ih : ImportsClashes g chain u rest m
      (st.log [.alreadyIncluded u.path.text (u.path.target d.path).text])) :
    ImportsClashes g chain u (d :: rest) m st := by
  intro depth ns first second spot hready h
  rw [resolveImports_of_included hchain hinc] at h
  obtain ⟨hclash, hnew, v, e, hfirst, hspot⟩ :=
    ih depth ns first second spot (hready.tail hready.consistent) h
  have hother : u.path.target d.path ≠ ⟨second⟩ := fun heq => hnew (heq ▸ hinc)
  rw [moments_of_included hchain hinc]
  exact ⟨hclash, hnew, v, e, hfirst.cons (leadsTo_examine.not.2 hother), hspot⟩

/-- A clash at the imported file is moved to the directive, a clash below it is handed up. -/
theorem importsClashes_of_file_error {text : String} {f : Failure}
    (htarget : u.path.target d.path = p) (hchain : ¬onChain chain p = true)
    (hinc : ¬st.registry.includes p = true) (hread : g.disk.read p = .ok text)
    (hfile : resolveFile g.disk chain ⟨p, p.text, text⟩ (st.log [.importing u.path.text p.text]) =
      (.error f, st'))
    (ih : FileClashes g chain ⟨p, p.text, text⟩ (st.log [.importing u.path.text p.text])) :
    ImportsClashes g chain u (d :: rest) m st := by
  intro depth ns first second spot hready h
  rw [resolveImports_of_read_ok htarget hchain hinc hread, hfile] at h
  obtain ⟨spot', rfl, hspot⟩ := eq_of_relocate_duplicate (Except.error.inj h)
  obtain ⟨hclash, hwhere⟩ := ih (depth + 1) ns first second spot'
    (hready.visit htarget hchain hinc hread) (by rw [hfile])
  rw [moments_of_file_error htarget hchain hinc hread hfile]
  refine ⟨hclash, ?_⟩
  rcases hwhere with ⟨hsecond, _⟩ | ⟨hnew, v, e, hfirst, hbelow⟩
  · have htext : second = p.text := congrArg Path.text hsecond
    rw [if_pos htext] at hspot
    rw [hsecond]
    exact ⟨hinc, u, d, firstImport_head htarget, hspot⟩
  · have hother : p ≠ ⟨second⟩ := fun heq => hnew (heq ▸ includes_addFile _ p)
    have htext : second ≠ p.text := fun heq => hother (congrArg Path.mk heq.symm)
    rw [if_neg htext] at hspot
    have hold : ¬st.registry.includes ⟨second⟩ = true := fun hsecond =>
      hnew ((later_addFile _ p).includes _ hsecond)
    refine ⟨hold, v, e, ?_, hspot.trans hbelow⟩
    exact (hfirst.cons not_leadsTo_read).cons (leadsTo_examine.not.2 (htarget ▸ hother))

/-- The imported file did not lead to the second one, so its first import is among the others. -/
theorem importsClashes_of_file_ok {text : String} (hroot : g.root.path.IsNormalForm)
    (htarget : u.path.target d.path = p) (hchain : ¬onChain chain p = true)
    (hinc : ¬st.registry.includes p = true) (hread : g.disk.read p = .ok text)
    (hfile : resolveFile g.disk chain ⟨p, p.text, text⟩ (st.log [.importing u.path.text p.text]) =
      (.ok sub, st'))
    (ih : ImportsClashes g chain u rest (m.merge sub) (st'.log [sub.mergeEvent])) :
    ImportsClashes g chain u (d :: rest) m st := by
  intro depth ns first second spot hready h
  rw [resolveImports_of_read_ok htarget hchain hinc hread, hfile] at h
  obtain ⟨hclash, hnew, v, e, hfirst, hspot⟩ := ih depth ns first second spot
    ((handedOn g hroot).next hready htarget hchain hinc hread hfile) h
  -- whatever has been imported so far is included, and the second file is not
  have hown := includes_of_resolveFile hfile
  have hother : p ≠ ⟨second⟩ := fun heq => hnew (heq ▸ hown)
  have hpassed : ∀ mo ∈ (traceFile g.disk (depth + 1) chain ⟨p, p.text, text⟩
      (st.log [.importing u.path.text p.text])).1, ¬mo.LeadsTo ⟨second⟩ := fun mo hmo hleads =>
    hnew ((includes_of_imports g.disk).1 _ _ _ (depth + 1) sub st' hfile mo hmo _ hleads)
  have hlater := later_of_resolveFile hfile
  rw [moments_of_file_ok htarget hchain hinc hread hfile]
  refine ⟨hclash, fun hsecond => hnew (hlater.includes _ hsecond), v, e, ?_, hspot⟩
  refine .append ?_ (hfirst.cons not_leadsTo_merge)
  exact List.forall_mem_cons.2 ⟨leadsTo_examine.not.2 (htarget ▸ hother),
    List.forall_mem_cons.2 ⟨not_leadsTo_read, hpassed⟩⟩

end Clashes

/-- A clash that a call reports is one, and it is reported where the second file is imported
first. -/
theorem clashes (g : Graph) (hroot : g.root.path.IsNormalForm) :
    (∀ chain u st, FileClashes g chain u st) ∧
      ∀ chain u imports m st, ImportsClashes g chain u imports m st := by
  refine resolve_induct g.disk (FileClashes g) (ImportsClashes g)
    ?load_error ?load_ok ?nil ?on_chain ?included ?read_error ?read_ok
  case load_error =>
    intro chain u st f es hload depth ns first second spot _ h
    rw [resolveFile_of_load_error hload] at h
    cases h
    obtain ⟨_, _, ⟨⟩⟩ := SourceUnit.eq_of_load_error hload
  case load_ok =>
    intro chain u st m imports es hload ih
    rcases resolveFile_cases g.disk chain st hload with
      ⟨f, st', himports, _⟩ | ⟨m', st', himports, _⟩
    · exact fileClashes_of_imports_error hroot hload himports ih
    · exact fileClashes_of_claim hroot hload himports
  case nil =>
    intro chain u m st depth ns first second spot _ h
    rw [resolveImports_nil] at h
    cases h
  case on_chain =>
    intro chain u d rest m st hchain depth ns first second spot _ h
    rw [resolveImports_of_onChain hchain] at h
    cases h
  case included =>
    intro chain u d rest m st hchain hinc ih
    exact importsClashes_of_included hchain hinc ih
  case read_error =>
    intro chain u d rest m st cause hchain hinc hread depth ns first second spot _ h
    rw [resolveImports_of_read_error hchain hinc hread] at h
    cases h
  case read_ok =>
    intro chain u d rest m st p text htarget hchain hinc hread ihfile ihrest
    rcases resolveImports_cases m rest htarget hchain hinc hread with
      ⟨f, st', hfile, _⟩ | ⟨sub, st', hfile, _⟩
    · exact importsClashes_of_file_error htarget hchain hinc hread hfile ihfile
    · exact importsClashes_of_file_ok hroot htarget hchain hinc hread hfile (ihrest sub st' hfile)

/-! ## Root files -/

variable {disk : Disk} {baseDir : Option Path} {name text ns first second : String} {spot : Spot}

/-- Every clash over a namespace that is reported is one, and it is pointed at where it belongs: at
the directive that is the first to import the second file, however deep below the root, or at the
start of the root if the second file is the root. -/
theorem duplicateNamespace_truthful
    (h : (resolve disk baseDir name text).1 =
      .error (.ofImport (.duplicateNamespace ns first second spot))) :
    ∃ path, locate disk baseDir ⟨name⟩ = .ok path ∧
      (trace disk baseDir name text).2 = resolve disk baseDir name text ∧
      (⟨disk, ⟨path, name, text⟩⟩ : Graph).Clash ns ⟨first⟩ ⟨second⟩ ∧
      (⟨second⟩ = path ∧ spot = ⟨⟨name, text⟩, ⟨0, 0⟩, .start name⟩ ∨
        ⟨second⟩ ≠ path ∧ ∃ u d, FirstImport (trace disk baseDir name text).1 ⟨second⟩ u d ∧
          (⟨disk, ⟨path, name, text⟩⟩ : Graph).unitAt u.path = .ok u ∧ d ∈ u.directives ∧
          spot = u.spotOf d) := by
  cases hpath : locate disk baseDir ⟨name⟩ with
  | error e =>
    simp only [resolve, hpath, Except.error.injEq, Failure.ofImport.injEq] at h
    cases h
    obtain ⟨_, _, _, ⟨⟩⟩ := eq_of_locate_error hpath
  | ok path =>
    have hfile := resolveFile_of_resolve_error hpath h
    obtain ⟨hclash, hwhere⟩ := (clashes ⟨disk, ⟨path, name, text⟩⟩ (isNormalForm_of_locate hpath)).1
      [] ⟨path, name, text⟩ .start 1 ns first second spot (.root _) hfile
    refine ⟨path, rfl, trace_snd .., hclash, ?_⟩
    rcases hwhere with hroot | ⟨hnew, u, d, hfirst, hspot⟩
    · exact .inl hroot
    · have hother : (⟨second⟩ : Path) ≠ path := fun heq =>
        hnew (heq ▸ includes_addFile Registry.empty path)
      rw [← moments_of_locate_ok hpath] at hfirst
      refine .inr ⟨hother, u, d, hfirst, ?_⟩
      obtain ⟨before, mo, after, hsplit, _, haction, _⟩ := hfirst
      have hmo : mo ∈ (trace disk baseDir name text).1 := by
        rw [hsplit]
        simp
      obtain ⟨path', hpath', hwithin⟩ := within_of_mem_trace hmo
      rw [hpath] at hpath'
      cases hpath'
      cases hwithin with
      | examine himports =>
        cases haction
        exact ⟨himports.unit, himports.directives List.mem_cons_self, hspot⟩
      | _ => cases haction

/-- The second file is imported below the root: the report passes through the directive of the root
unchanged. -/
theorem duplicateNamespace_truthful_below_root :
    ∃ disk, disk = FileTree.toDisk ⟨[(["b"], .file "namespace n".toUTF8),
        (["c"], .file "import \"d\"".toUTF8), (["d"], .file "namespace n".toUTF8)], .present []⟩ ∧
      (resolve disk none "/a" "import \"b\" import \"c\"").1 = .error (.ofImport
        (.duplicateNamespace "n" "/b" "/d"
          ⟨⟨"/c", "import \"d\""⟩, ⟨0, 10⟩, ⟨"/c", 1, 1, 0⟩⟩)) ∧
      (⟨disk, ⟨⟨"/a"⟩, "/a", "import \"b\" import \"c\""⟩⟩ : Graph).Clash "n" ⟨"/b"⟩ ⟨"/d"⟩ ∧
      ∃ u d, FirstImport (trace disk none "/a" "import \"b\" import \"c\"").1 ⟨"/d"⟩ u d ∧
        u.name = "/c" ∧ u.spotOf d = ⟨⟨"/c", "import \"d\""⟩, ⟨0, 10⟩, ⟨"/c", 1, 1, 0⟩⟩ := by
  obtain ⟨disk, hdisk⟩ : ∃ disk, disk = FileTree.toDisk ⟨[(["b"], .file "namespace n".toUTF8),
    (["c"], .file "import \"d\"".toUTF8), (["d"], .file "namespace n".toUTF8)], .present []⟩ :=
    ⟨_, rfl⟩
  have hlocate : locate disk none ⟨"/a"⟩ = .ok ⟨"/a"⟩ := rfl
  have hload : (⟨⟨"/a"⟩, "/a", "import \"b\" import \"c\""⟩ : SourceUnit).load.1.toOption =
      some (⟨"/a", "", [], [], []⟩,
        [⟨"b", ⟨"/a", 1, 1, 0⟩, 10⟩, ⟨"c", ⟨"/a", 1, 12, 11⟩, 21⟩]) := by
    decide +kernel
  have hreadB : disk.read ⟨"/b"⟩ = .ok "namespace n" := by
    rw [hdisk]
    decide +kernel
  have hreadC : disk.read ⟨"/c"⟩ = .ok "import \"d\"" := by
    rw [hdisk]
    decide +kernel
  have hreadD : disk.read ⟨"/d"⟩ = .ok "namespace n" := by
    rw [hdisk]
    decide +kernel
  have hB : (⟨⟨"/b"⟩, "/b", "namespace n"⟩ : SourceUnit).load.1.toOption =
      some (⟨"/b", "n", [], [], []⟩, []) := by
    decide +kernel
  have hC : (⟨⟨"/c"⟩, "/c", "import \"d\""⟩ : SourceUnit).load.1.toOption =
      some (⟨"/c", "", [], [], []⟩, [⟨"d", ⟨"/c", 1, 1, 0⟩, 10⟩]) := by
    decide +kernel
  have hD : (⟨⟨"/d"⟩, "/d", "namespace n"⟩ : SourceUnit).load.1.toOption =
      some (⟨"/d", "n", [], [], []⟩, []) := by
    decide +kernel
  have hresolve := Fails.resolve hlocate hload
    (.later (.visit (by decide +kernel) (by decide +kernel) (by decide +kernel) hreadB hB .done
        (by decide) .done)
      (.within (by decide +kernel) (by decide +kernel) (by decide +kernel) hreadC hC
        (.taken (by decide +kernel) (by decide +kernel) (by decide +kernel) hreadD hD .done
          (by decide) rfl (by decide +kernel))))
  obtain ⟨path, hpath, _, hclash, hwhere⟩ := duplicateNamespace_truthful hresolve
  rw [hlocate] at hpath
  cases hpath
  rcases hwhere with ⟨hroot, _⟩ | ⟨_, u, d, hfirst, _, _, hspot⟩
  · exact absurd hroot (by decide)
  · exact ⟨disk, hdisk, hresolve, hclash, u, d, hfirst,
      (congrArg (fun s => s.source.name) hspot).symm, hspot.symm⟩

end InterfaceLang.Imports
