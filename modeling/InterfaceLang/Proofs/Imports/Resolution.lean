import InterfaceLang.Disk.FileTree
import InterfaceLang.Proofs.Imports.Contribution
import InterfaceLang.Proofs.Imports.Runs

/-!
# What resolving does

Resolving a file that is met for the first time either succeeds or shows that the import graph is
not resolvable. When it succeeds, it has walked depth first through the files that were not
included before, has settled them all, and has gathered their contributions in the order of the
walk. The two functions that follow imports call each other; `FileSpec` and `ImportsSpec` say what
each of them does, and one induction along their calls proves both.

Results:
* `resolve_exists_ok_iff`: resolving a root succeeds exactly if the import graph is resolvable.
* `resolve_collects`: the model of a resolution is the concatenation of what the files contribute.
-/

namespace InterfaceLang.Imports

namespace Graph

/-- The model of the file at `p` by itself, without declarations if the file cannot be lowered. -/
def own (g : Graph) (p : Path) : Model :=
  (g.lowered? p).getD (.empty p.text)

/-- What the file at `p` adds to the model of the root: the root its declarations as they are, every
other file its declarations as other files see them. -/
def contribution (g : Graph) (p : Path) : Model :=
  if p = g.root.path then g.own p else (g.own p).exported

theorem own_eq {g : Graph} {p : Path} {m : Model} (h : g.lowered? p = some m) : g.own p = m := by
  rw [own, h, Option.getD_some]

/-- What is lowered from a file is the model of one file. -/
theorem ofOneFile_of_lowered? {g : Graph} {p : Path} {m : Model} (h : g.lowered? p = some m) :
    m.OfOneFile := by
  obtain ⟨u, f, _, hf, hm⟩ := lowered?_eq_some_iff.1 h
  exact Model.ofOneFile_toModel (Parser.names_of_parse hf) hm

end Graph

variable {g : Graph} {chain : List Path} {r r' r'' : Registry} {p : Path}

/-! ## What success means -/

/-- The file at `p` has been resolved from the registry `r`, with the visited files after it. -/
structure FileDone (g : Graph) (chain : List Path) (r r' : Registry) (p : Path) (m : Model)
    (visited : List Path) : Prop where
  walk : g.Preorder r.included [p] (p :: visited)
  included : r'.included = r.included ++ p :: visited
  consistent : Consistent g chain r'
  gathers : (g.own p).Gathers (visited.map fun q => (g.own q).exported) m

/-- The pending imports of the last file on the chain have been followed from the registry `r`,
and what they contribute has been added to `m`. -/
structure ImportsDone (g : Graph) (chain : List Path) (r r' : Registry) (pending : List Path)
    (m m' : Model) (visited : List Path) : Prop where
  walk : g.Preorder r.included pending visited
  included : r'.included = r.included ++ visited
  off_chain : ∀ q ∈ pending, q ∉ chain
  consistent : Consistent g chain r'
  gathers : m.Gathers (visited.map fun q => (g.own q).exported) m'

/-- The file and all that were visited after it are settled. -/
theorem FileDone.settled {m : Model} {visited : List Path} {q : Path}
    (h : FileDone g chain r r' p m visited) (hr : Consistent g chain r) (hq : q ∈ p :: visited) :
    Settled g chain r' q := by
  refine h.consistent.settled q ?_ fun hchain => h.walk.not_mem_seen hq (hr.chain_subset hchain)
  rw [h.included]
  exact List.mem_append_right _ hq

namespace ImportsDone

variable {pending visited : List Path} {m m' : Model}

/-- No imports: nothing is visited and nothing is added. -/
theorem nil (h : Consistent g chain r) (m : Model) : ImportsDone g chain r r [] m m [] where
  walk := .done _
  included := by simp
  off_chain := by simp
  consistent := h
  gathers := .refl m

/-- An import that is included and not on the chain adds nothing. -/
theorem skip (h : ImportsDone g chain r r' pending m m' visited) (hp : p ∈ r.included)
    (hoff : p ∉ chain) : ImportsDone g chain r r' (p :: pending) m m' visited :=
  ⟨.skip hp h.walk, h.included, List.forall_mem_cons.2 ⟨hoff, h.off_chain⟩, h.consistent, h.gathers⟩

/-- Of the files that were settled together with `p`, none declares the namespace of `p`. -/
theorem foreign_of_fileDone {sub : Model} (h : FileDone g chain r r' p sub visited)
    (hr : Consistent g chain r) (hns : (g.own p).rootNs ≠ "") :
    ∀ c ∈ visited.map fun q => (g.own q).exported,
      ∃ ns, c.Within ns ∧ ns ≠ (g.own p).rootNs := by
  have hsettled : ∀ q ∈ p :: visited, Settled g chain r' q := fun q hq => h.settled hr hq
  intro c hc
  obtain ⟨q, hq, rfl⟩ := List.mem_map.1 hc
  obtain ⟨mq, hmq⟩ := (hsettled q (List.mem_cons_of_mem _ hq)).lowered
  obtain ⟨mp, hmp⟩ := (hsettled p List.mem_cons_self).lowered
  rw [Graph.own_eq hmp] at hns ⊢
  rw [Graph.own_eq hmq]
  refine ⟨mq.rootNs, (Graph.ofOneFile_of_lowered? hmq).toWithin.exported, fun heq => ?_⟩
  have hownp := (hsettled p List.mem_cons_self).owner mp hmp hns
  have hownq := (hsettled q (List.mem_cons_of_mem _ hq)).owner mq hmq (heq ▸ hns)
  rw [heq, hownp] at hownq
  cases hownq
  exact (List.nodup_cons.1 h.walk.nodup).1 hq

/-- An import that is resolved adds its own declarations and those of the files visited after it,
and then the other imports add theirs. -/
theorem visit {sub : Model} {more : List Path} (hr : Consistent g chain r) (hp : p ∉ chain)
    (h : FileDone g chain r r' p sub visited)
    (h' : ImportsDone g chain r' r'' pending (m.merge sub) m' more) :
    ImportsDone g chain r r'' (p :: pending) m m' (p :: visited ++ more) where
  walk := by
    have hrest := h'.walk
    rw [h.included] at hrest
    exact h.walk.append hrest
  included := by rw [h'.included, h.included, List.append_assoc]
  off_chain := List.forall_mem_cons.2 ⟨hp, h'.off_chain⟩
  consistent := h'.consistent
  gathers := by
    obtain ⟨mp, hmp⟩ := (h.consistent.settled p (by simp [h.included]) hp).lowered
    have hown : (g.own p).OfOneFile := by
      rw [Graph.own_eq hmp]
      exact Graph.ofOneFile_of_lowered? hmp
    have hmerge := Model.Gathers.merge (m := m) h.gathers hown (foreign_of_fileDone h hr)
    rw [List.cons_append, List.map_cons, List.map_append]
    exact hmerge.trans h'.gathers

end ImportsDone

/-! ## What the two functions do -/

/-- Resolving a file that the chain leads to and that is not included yet. -/
def FileSpec (g : Graph) (chain : List Path) (u : SourceUnit) (st : Progress) : Prop :=
  g.unitAt u.path = .ok u → Trail g (chain ++ [u.path]) → u.path ∉ st.registry.included →
  Consistent g chain st.registry →
    (∃ m st' visited, resolveFile g.disk chain u st = (.ok m, st') ∧
      FileDone g chain st.registry st'.registry u.path m visited) ∨
    (∃ e st', resolveFile g.disk chain u st = (.error e, st') ∧ ¬g.Resolvable)

/-- Following some of the imports of the last file on the chain. -/
def ImportsSpec (g : Graph) (chain : List Path) (u : SourceUnit) (imports : List Directive)
    (m : Model) (st : Progress) : Prop :=
  g.unitAt u.path = .ok u → imports ⊆ u.directives → Trail g chain →
  chain.getLast? = some u.path → Consistent g chain st.registry →
    (∃ m' st' visited, resolveImports g.disk chain u imports m st = (.ok m', st') ∧
      ImportsDone g chain st.registry st'.registry
        (imports.map fun d => u.path.target d.path) m m' visited) ∨
    (∃ e st', resolveImports g.disk chain u imports m st = (.error e, st') ∧ ¬g.Resolvable)

/-- Every directive of a file is an edge of the graph. -/
theorem edge_of_mem_directives {u : SourceUnit} {d : Directive} (hu : g.unitAt u.path = .ok u)
    (hd : d ∈ u.directives) : g.Edge u.path (u.path.target d.path) := by
  rw [Graph.Edge, Graph.targets_eq hu]
  exact List.mem_map_of_mem hd

/-- A file that loads has the model and the directives that the graph gives it. -/
theorem lowered?_of_load {u : SourceUnit} {m : Model} {ds : List Directive} {es : List Event}
    (hu : g.unitAt u.path = .ok u) (h : u.load = (.ok (m, ds), es)) :
    g.lowered? u.path = some m ∧ ds = u.directives := by
  obtain ⟨hds, f, hf, hm⟩ := SourceUnit.load_eq_ok h
  exact ⟨Graph.lowered?_eq_some_iff.2 ⟨u, f, hu, hf, hm⟩, hds⟩

/-- The files that a file imports, from what loading it gives. -/
theorem targets_of_load {u : SourceUnit} {m : Model} {ds : List Directive} {ps : List Path}
    (hu : g.unitAt u.path = .ok u) (h : u.load.1.toOption = some (m, ds))
    (hps : (ds.map fun d => u.path.target d.path) = ps) : g.targets u.path = ps := by
  obtain ⟨es, hload⟩ := load_of_toOption h
  rw [Graph.targets_eq hu, ← hps, (lowered?_of_load hu hload).2]
  rfl

/-- A reachable file that does not load is one that is not well-formed. -/
theorem not_resolvable_of_load {u : SourceUnit} {e : Failure} {es : List Event}
    (hu : g.unitAt u.path = .ok u) (hreach : g.Reachable u.path) (h : u.load = (.error e, es)) :
    ¬g.Resolvable := by
  intro hg
  obtain ⟨m, hm⟩ := Graph.exists_lowered?_iff.2 (hg.wellFormed _ hreach)
  obtain ⟨u', f, hu', hf, hm⟩ := Graph.lowered?_eq_some_iff.1 hm
  rw [hu] at hu'
  cases hu'
  exact SourceUnit.load_eq_error h hf hm

/-- A reachable file that cannot be read is one that is not well-formed. -/
theorem not_resolvable_of_read {cause : ReadFailure} (hp : p ≠ g.root.path)
    (hreach : g.Reachable p) (h : g.disk.read p = .error cause) : ¬g.Resolvable := by
  intro hg
  obtain ⟨f, ⟨u, hu, _⟩, _⟩ := hg.wellFormed p hreach
  rw [Graph.unitAt_of_read_error hp h] at hu
  cases hu

/-- The imports of a file that enters the chain have been followed: what is left to do is to claim
its namespace. -/
theorem fileDone_of_claim {u : SourceUnit} {m m' : Model} {st st' : Progress}
    {visited : List Path} (hr : Consistent g chain r) (hnew : u.path ∉ r.included)
    (hadd : st.registry.included = r.included ++ [u.path]) (hm : g.lowered? u.path = some m)
    (h : ImportsDone g (chain ++ [u.path]) st.registry st'.registry (g.targets u.path) m m' visited)
    (hreach : g.Reachable u.path) :
    (∃ st'', claim u m' st' = (.ok m', st'') ∧
      FileDone g chain r st''.registry u.path m' visited) ∨
    (∃ e, claim u m' st' = (.error e, st') ∧ ¬g.Resolvable) := by
  have himports : ∀ q, g.Edge u.path q → q ∈ st'.registry.included ∧ q ∉ chain ++ [u.path] := by
    intro q hq
    rw [h.included]
    exact ⟨h.walk.pending_subset hq, h.off_chain q hq⟩
  rcases h.consistent.claim (fun hmem => hnew (hr.chain_subset hmem)) hm h.gathers.rootNs himports
    with ⟨st'', hclaim, hcons, hinc⟩ | ⟨e, q, hclaim, hne, hq, hns, hdq, hdu⟩
  · refine .inl ⟨st'', hclaim, ?_, ?_, hcons, ?_⟩
    · refine .visit hnew ?_
      rw [← hadd, List.append_nil]
      exact h.walk
    · rw [hinc, h.included, hadd, List.append_assoc]
      rfl
    · rw [Graph.own_eq hm]
      exact h.gathers
  · exact .inr ⟨e, hclaim, fun hg => hne (hg.distinct q u.path _ hq hreach hns hdq hdu)⟩

/-- A file that is not included yet becomes the last one of the registry. -/
theorem addFile_included {u : SourceUnit} {st : Progress} {es : List Event}
    (hr : Consistent g chain st.registry) (hp : u.path.IsNormalForm)
    (hnew : u.path ∉ st.registry.included) :
    ((st.log es).addFile u.path).registry.included = st.registry.included ++ [u.path] := by
  show (st.registry.addFile u.path).included = _
  rw [Registry.addFile_of_not_includes fun h => hnew ((hr.includes_iff hp).1 h)]

/-! ## Calls, one by one -/

section Calls

variable {u : SourceUnit} {st : Progress} {m : Model} {d : Directive} {rest : List Directive}

theorem fileSpec_of_load_error {e : Failure} {es : List Event} (hload : u.load = (.error e, es)) :
    FileSpec g chain u st := by
  intro hu htrail _ _
  exact .inr ⟨e, _, resolveFile_of_load_error hload,
    not_resolvable_of_load hu (htrail.reachable (by simp)) hload⟩

/-- A file that loads: the specification of its imports, called with the file on the chain, gives
its own. -/
theorem fileSpec_of_load_ok {imports : List Directive} {es : List Event}
    (hroot : g.root.path.IsNormalForm) (hload : u.load = (.ok (m, imports), es))
    (ih : ImportsSpec g (chain ++ [u.path]) u imports m
      ((st.log (.resolving u.path.text :: es)).addFile u.path)) : FileSpec g chain u st := by
  intro hu htrail hnew hr
  obtain ⟨hm, rfl⟩ := lowered?_of_load hu hload
  have hreach : g.Reachable u.path := htrail.reachable (by simp)
  have hp := hreach.isNormalForm hroot
  rcases ih hu (List.Subset.refl _) htrail (by simp) (hr.enter hp hreach hnew) with
    ⟨m', st', visited, himports, hdone⟩ | ⟨e, st', himports, hg⟩
  · have hfile : resolveFile g.disk chain u st = claim u m' st' := by
      simp only [resolveFile_of_load_ok hload, himports]
    have htargets : u.directives.map (fun d => u.path.target d.path) = g.targets u.path :=
      (Graph.targets_eq hu).symm
    rw [htargets] at hdone
    rw [hfile]
    rcases fileDone_of_claim hr hnew (addFile_included hr hp hnew) hm hdone hreach with
      ⟨st'', hclaim, hfd⟩ | ⟨e, hclaim, hg⟩
    · exact .inl ⟨m', st'', visited, hclaim, hfd⟩
    · exact .inr ⟨e, st', hclaim, hg⟩
  · refine .inr ⟨e, st', ?_, hg⟩
    simp only [resolveFile_of_load_ok hload, himports]

theorem importsSpec_nil : ImportsSpec g chain u [] m st := by
  intro _ _ _ _ hr
  exact .inl ⟨m, st, [], resolveImports_nil, .nil hr m⟩

/-- The way along the chain and the import that leads back to it are a cycle of the graph. -/
theorem importsSpec_of_onChain (hchain : onChain chain (u.path.target d.path) = true) :
    ImportsSpec g chain u (d :: rest) m st := by
  intro hu hsub htrail hlast hr
  have hedge := edge_of_mem_directives hu (hsub List.mem_cons_self)
  have hmem := (hr.onChain_iff (Path.isNormalForm_target _ _)).1 hchain
  have hcycle := Walk.cycle_of_mem htrail.walk hlast hedge hmem
  have hg : ¬g.Resolvable := fun hg => hg.acyclic _ ((htrail.reachable hlast).tail hedge) hcycle
  exact .inr ⟨_, st, resolveImports_of_onChain hchain, hg⟩

/-- An import that is passed over is one step of the walk that visits nothing. -/
theorem importsSpec_of_included (hchain : ¬onChain chain (u.path.target d.path) = true)
    (hinc : st.registry.includes (u.path.target d.path) = true)
    (ih : ImportsSpec g chain u rest m
      (st.log [.alreadyIncluded u.path.text (u.path.target d.path).text])) :
    ImportsSpec g chain u (d :: rest) m st := by
  intro hu hsub htrail hlast hr
  have hp := Path.isNormalForm_target u.path d.path
  rw [resolveImports_of_included hchain hinc]
  rcases ih hu (List.cons_subset.1 hsub).2 htrail hlast hr with
    ⟨m', st', visited, hrest, hdone⟩ | hfail
  · refine .inl ⟨m', st', visited, hrest, hdone.skip ((hr.includes_iff hp).1 hinc) ?_⟩
    exact fun hmem => hchain ((hr.onChain_iff hp).2 hmem)
  · exact .inr hfail

/-- The import is not the root, since the root is on the chain, so the disk is what the graph
reads. -/
theorem importsSpec_of_read_error {cause : ReadFailure}
    (hchain : ¬onChain chain (u.path.target d.path) = true)
    (hinc : ¬st.registry.includes (u.path.target d.path) = true)
    (hread : g.disk.read (u.path.target d.path) = .error cause) :
    ImportsSpec g chain u (d :: rest) m st := by
  intro hu hsub htrail hlast hr
  have hedge := edge_of_mem_directives hu (hsub List.mem_cons_self)
  have hne : u.path.target d.path ≠ g.root.path := fun heq =>
    hchain ((hr.onChain_iff (Path.isNormalForm_target _ _)).2 (heq ▸ htrail.root_mem))
  exact .inr ⟨_, st, resolveImports_of_read_error hchain hinc hread,
    not_resolvable_of_read hne ((htrail.reachable hlast).tail hedge) hread⟩

/-- The walks of the imported file and of the other imports are appended. -/
theorem importsSpec_of_read_ok {text : String} (htarget : u.path.target d.path = p)
    (hchain : ¬onChain chain p = true) (hinc : ¬st.registry.includes p = true)
    (hread : g.disk.read p = .ok text)
    (ihfile : FileSpec g chain ⟨p, p.text, text⟩ (st.log [.importing u.path.text p.text]))
    (ihrest : ∀ sub st', resolveFile g.disk chain ⟨p, p.text, text⟩
      (st.log [.importing u.path.text p.text]) = (.ok sub, st') →
      ImportsSpec g chain u rest (m.merge sub) (st'.log [sub.mergeEvent])) :
    ImportsSpec g chain u (d :: rest) m st := by
  intro hu hsub htrail hlast hr
  have hp : p.IsNormalForm := htarget ▸ Path.isNormalForm_target u.path d.path
  have hedge : g.Edge u.path p := htarget ▸ edge_of_mem_directives hu (hsub List.mem_cons_self)
  have hoff : p ∉ chain := fun hmem => hchain ((hr.onChain_iff hp).2 hmem)
  have hne : p ≠ g.root.path := fun heq => hoff (heq ▸ htrail.root_mem)
  have hnew : p ∉ st.registry.included := fun hmem => hinc ((hr.includes_iff hp).2 hmem)
  rcases ihfile (Graph.unitAt_of_read hne hread) (htrail.concat hlast hedge) hnew hr with
    ⟨sub, st', visited, hfile, hdone⟩ | ⟨e, st', hfile, hg⟩
  · rw [resolveImports_of_read_ok htarget hchain hinc hread, hfile, List.map_cons, htarget]
    rcases ihrest sub st' hfile hu (List.cons_subset.1 hsub).2 htrail hlast hdone.consistent with
      ⟨m', st'', more, hrest, hmore⟩ | hfail
    · exact .inl ⟨m', st'', _, hrest, .visit hr hoff hdone hmore⟩
    · exact .inr hfail
  · refine .inr ⟨relocate u d p e, st', ?_, hg⟩
    rw [resolveImports_of_read_ok htarget hchain hinc hread, hfile]

end Calls

/-- The specification of both functions, by induction along their calls. -/
theorem resolve_spec (g : Graph) (hroot : g.root.path.IsNormalForm) :
    (∀ chain u st, FileSpec g chain u st) ∧
      ∀ chain u imports m st, ImportsSpec g chain u imports m st := by
  refine resolve_induct g.disk (FileSpec g) (ImportsSpec g)
    ?load_error ?load_ok ?nil ?on_chain ?included ?read_error ?read_ok
  case load_error =>
    intro chain u st f es hload
    exact fileSpec_of_load_error hload
  case load_ok =>
    intro chain u st m imports es hload ih
    exact fileSpec_of_load_ok hroot hload ih
  case nil =>
    intro chain u m st
    exact importsSpec_nil
  case on_chain =>
    intro chain u d rest m st hchain
    exact importsSpec_of_onChain hchain
  case included =>
    intro chain u d rest m st hchain hinc ih
    exact importsSpec_of_included hchain hinc ih
  case read_error =>
    intro chain u d rest m st cause hchain hinc hread
    exact importsSpec_of_read_error hchain hinc hread
  case read_ok =>
    intro chain u d rest m st p text htarget hchain hinc hread ihfile ihrest
    exact importsSpec_of_read_ok htarget hchain hinc hread ihfile ihrest

/-! ## Root files -/

/-- The model `m` consists of what the files along a walk from the root contribute, in the order of
the walk. -/
structure Graph.Collects (g : Graph) (order : List Path) (m : Model) : Prop where
  walk : g.Preorder [] [g.root.path] order
  lowered : ∀ p ∈ order, g.lowered? p = some (g.own p)
  rootNs : m.rootNs = (g.own g.root.path).rootNs
  structs : m.structs = order.flatMap fun p => (g.contribution p).structs
  enums : m.enums = order.flatMap fun p => (g.contribution p).enums
  interfaces : m.interfaces = order.flatMap fun p => (g.contribution p).interfaces

namespace FileDone

variable {m : Model} {visited : List Path}

/-- After a root has been resolved, every file that can be reached is settled. -/
theorem settled_of_reachable (h : FileDone g [] .empty r g.root.path m visited)
    (hp : g.Reachable p) : Settled g [] r p := by
  refine h.consistent.settled p ?_ List.not_mem_nil
  rw [h.included]
  exact List.mem_append_right _ (h.walk.mem_iff.2 hp)

/-- All three demands on the graph, read off the settled files: they are lowered, the graph below
them has no cycle, and the registry has one owner for each namespace. -/
theorem resolvable (h : FileDone g [] .empty r g.root.path m visited) : g.Resolvable where
  wellFormed := by
    intro p hp
    exact Graph.exists_lowered?_iff.1 (h.settled_of_reachable hp).lowered
  acyclic := by
    intro p hp
    exact Walk.not_cycle_of_acc (h.settled_of_reachable hp).acyclic
  distinct := by
    -- the registry knows one owner of the namespace, and both files are it
    intro p q ns hp hq hns hdp hdq
    have hsp := h.settled_of_reachable hp
    have hsq := h.settled_of_reachable hq
    obtain ⟨mp, hmp⟩ := hsp.lowered
    obtain ⟨mq, hmq⟩ := hsq.lowered
    have hnsp := (Graph.declares_iff hmp hns).1 hdp
    have hnsq := (Graph.declares_iff hmq hns).1 hdq
    have hownp := hsp.owner mp hmp (hnsp ▸ hns)
    have hownq := hsq.owner mq hmq (hnsq ▸ hns)
    rw [hnsp] at hownp
    rw [hnsq, hownp] at hownq
    exact Option.some.inj hownq

/-- Only the root, which is visited first and once, contributes its declarations as they are. -/
theorem flatMap_contribution {α : Type} (h : FileDone g [] .empty r g.root.path m visited)
    (items : Model → List α) :
    (g.root.path :: visited).flatMap (fun p => items (g.contribution p)) =
      items (g.own g.root.path) ++ (visited.map fun q => (g.own q).exported).flatMap items := by
  have hnot := (List.nodup_cons.1 h.walk.nodup).1
  have hvisited : visited.map g.contribution = visited.map fun q => (g.own q).exported := by
    refine List.map_congr_left fun q hq => ?_
    have hne : q ≠ g.root.path := fun heq => hnot (heq ▸ hq)
    rw [Graph.contribution, if_neg hne]
  rw [List.flatMap_cons, ← hvisited, List.flatMap_map, Graph.contribution, if_pos rfl]

/-- What resolving the root has done says what its model consists of. -/
theorem collects (h : FileDone g [] .empty r g.root.path m visited) :
    g.Collects (g.root.path :: visited) m where
  walk := h.walk
  lowered := by
    intro p hp
    obtain ⟨mp, hmp⟩ := (h.settled_of_reachable (h.walk.mem_iff.1 hp)).lowered
    rw [Graph.own_eq hmp, hmp]
  rootNs := h.gathers.rootNs
  structs := by rw [h.gathers.structs, h.flatMap_contribution (·.structs)]
  enums := by rw [h.gathers.enums, h.flatMap_contribution (·.enums)]
  interfaces := by rw [h.gathers.interfaces, h.flatMap_contribution (·.interfaces)]

end FileDone

/-- Resolving a root either succeeds or shows that its import graph is not resolvable. -/
theorem resolveFile_root (g : Graph) (hroot : g.root.path.IsNormalForm) :
    (∃ m st visited, resolveFile g.disk [] g.root .start = (.ok m, st) ∧
      FileDone g [] .empty st.registry g.root.path m visited) ∨
    (∃ e st, resolveFile g.disk [] g.root .start = (.error e, st) ∧ ¬g.Resolvable) := by
  refine (resolve_spec g hroot).1 [] g.root .start (Graph.unitAt_root g) ⟨.singleton _, rfl⟩ ?_
    (.empty g)
  simp [Progress.start, Registry.empty]

variable {disk : Disk} {baseDir : Option Path} {name text : String}

/-- The path of a root that could be located is in normal form. -/
theorem isNormalForm_of_locate {path : Path} (h : locate disk baseDir p = .ok path) :
    path.IsNormalForm := by
  unfold locate at h
  split at h
  · rw [← Except.ok.inj h]
    exact Path.normalize_normalize _
  split at h
  · rw [← Except.ok.inj h]
    exact Path.normalize_normalize _
  split at h
  · rw [← Except.ok.inj h]
    exact Path.normalize_normalize _
  · cases h

/-- A root that cannot be located is reported as a missing module under the name it was asked for.
-/
theorem eq_of_locate_error {e : ImportError} (h : locate disk baseDir p = .error e) :
    ∃ resolved reason spot, e = .moduleNotFound p.text resolved reason spot := by
  unfold locate at h
  split at h
  · cases h
  split at h
  · cases h
  split at h
  · cases h
  · cases h
    exact ⟨_, _, _, rfl⟩

/-- Where the root can be located, a failure is one of resolving its file. -/
theorem resolveFile_of_resolve_error {path : Path} {e : Failure}
    (hpath : locate disk baseDir ⟨name⟩ = .ok path)
    (h : (resolve disk baseDir name text).1 = .error e) :
    (resolveFile disk [] ⟨path, name, text⟩ .start).1 = .error e := by
  rw [resolve_eq_of_locate hpath] at h
  cases hfile : (resolveFile disk [] ⟨path, name, text⟩ .start).1 with
  | error f =>
    rw [hfile] at h
    exact congrArg Except.error (Except.error.inj h)
  | ok m =>
    rw [hfile] at h
    cases h

/-- A resolution that succeeds has located the root, and its import graph is resolvable. -/
theorem collects_of_resolve {m : Model} (h : (resolve disk baseDir name text).1 = .ok m) :
    ∃ path order, locate disk baseDir ⟨name⟩ = .ok path ∧
      (⟨disk, ⟨path, name, text⟩⟩ : Graph).Resolvable ∧
      (⟨disk, ⟨path, name, text⟩⟩ : Graph).Collects order m := by
  cases hpath : locate disk baseDir ⟨name⟩ with
  | error e =>
    rw [resolve, hpath] at h
    cases h
  | ok path =>
    rw [resolve_eq_of_locate hpath] at h
    rcases resolveFile_root ⟨disk, ⟨path, name, text⟩⟩ (isNormalForm_of_locate hpath) with
      ⟨m', st, visited, hfile, hdone⟩ | ⟨e, st, hfile, _⟩
    · rw [hfile] at h
      cases h
      have hc := hdone.collects
      exact ⟨path, _, rfl, hdone.resolvable,
        ⟨hc.walk, hc.lowered, hc.rootNs, hc.structs, hc.enums, hc.interfaces⟩⟩
    · rw [hfile] at h
      cases h

/-- A root that is located resolves if its graph is resolvable. -/
theorem exists_resolve_of_resolvable {path : Path} (h : locate disk baseDir ⟨name⟩ = .ok path)
    (hg : (⟨disk, ⟨path, name, text⟩⟩ : Graph).Resolvable) :
    ∃ m, (resolve disk baseDir name text).1 = .ok m := by
  rw [resolve_eq_of_locate h]
  rcases resolveFile_root ⟨disk, ⟨path, name, text⟩⟩ (isNormalForm_of_locate h) with
    ⟨m, st, _, hfile, _⟩ | ⟨_, _, _, hnot⟩
  · rw [hfile]
    exact ⟨_, rfl⟩
  · exact absurd hg hnot

/-- A root that can be located is resolved exactly if its import graph is resolvable. -/
theorem resolve_exists_ok_iff {path : Path} (h : locate disk baseDir ⟨name⟩ = .ok path) :
    (∃ m, (resolve disk baseDir name text).1 = .ok m) ↔
      (⟨disk, ⟨path, name, text⟩⟩ : Graph).Resolvable := by
  rw [resolve_eq_of_locate h]
  rcases resolveFile_root ⟨disk, ⟨path, name, text⟩⟩ (isNormalForm_of_locate h) with
    ⟨m, st, visited, hfile, hdone⟩ | ⟨e, st, hfile, hg⟩
  · rw [hfile]
    exact ⟨fun _ => hdone.resolvable, fun _ => ⟨_, rfl⟩⟩
  · rw [hfile]
    constructor
    · rintro ⟨m, hm⟩
      cases hm
    · intro hres
      exact absurd hres hg

/-- A file that imports itself is not resolved. -/
theorem resolve_self_import :
    ¬∃ m, (resolve (FileTree.toDisk ⟨[], .present []⟩) none "/a" "import \"a\"").1 = .ok m := by
  have hlocate : locate (FileTree.toDisk ⟨[], .present []⟩) none ⟨"/a"⟩ = .ok ⟨"/a"⟩ := rfl
  rw [resolve_exists_ok_iff hlocate]
  intro hg
  refine hg.acyclic _ .refl (.single ?_)
  rw [Graph.Edge, Graph.targets_eq (Graph.unitAt_root _)]
  decide +kernel

/-- The model that a resolution gives holds the declarations of the files that can be reached, each
file once and each declaration qualified at most once, in the order of the depth-first walk, of
which there is only one. -/
theorem resolve_collects {m : Model} (h : (resolve disk baseDir name text).1 = .ok m) :
    ∃ path order, locate disk baseDir ⟨name⟩ = .ok path ∧
      (⟨disk, ⟨path, name, text⟩⟩ : Graph).Collects order m ∧ order.Nodup ∧
      (∀ order', (⟨disk, ⟨path, name, text⟩⟩ : Graph).Preorder [] [path] order' → order' = order) ∧
      (∀ p, p ∈ order ↔ (⟨disk, ⟨path, name, text⟩⟩ : Graph).Reachable p) ∧ m.file = name := by
  cases hpath : locate disk baseDir ⟨name⟩ with
  | error e =>
    rw [resolve, hpath] at h
    cases h
  | ok path =>
    rw [resolve_eq_of_locate hpath] at h
    rcases resolveFile_root ⟨disk, ⟨path, name, text⟩⟩ (isNormalForm_of_locate hpath) with
      ⟨m', st, visited, hfile, hdone⟩ | ⟨e, st, hfile, hg⟩
    · rw [hfile] at h
      cases h
      have hc := hdone.collects
      exact ⟨path, _, rfl, ⟨hc.walk, hc.lowered, hc.rootNs, hc.structs, hc.enums, hc.interfaces⟩,
        hc.walk.nodup, fun order' hwalk => hwalk.unique hc.walk, fun p => hc.walk.mem_iff, rfl⟩
    · rw [hfile] at h
      cases h

/-- Both files that the root imports import a third one. It is merged once, below the first of them.
Names and references to names of the same file stand under the namespace once; a reference to a name
of another file stays as it is. -/
theorem resolve_collects_of_diamond :
    ∃ disk m order, disk = FileTree.toDisk
        ⟨[(["b"], .file "namespace b import \"d\" struct B { x E y d.D z A } enum E { }".toUTF8),
          (["c"], .file "namespace c import \"d\" interface I { f(x []d.D) I }".toUTF8),
          (["d"], .file "namespace d struct D { x map[string]D }".toUTF8)], .present []⟩ ∧
      (resolve disk none "/a"
        "namespace a import \"b\" import \"c\" struct A { x b.B y E }").1 = .ok m ∧
      m.structs.map (fun s => (s.name, s.fields.map (·.type.text))) =
        [("A", ["b.B", "E"]), ("b.B", ["b.E", "d.D", "A"]), ("d.D", ["map[string]d.D"])] ∧
      m.enums.map (·.name) = ["b.E"] ∧
      m.interfaces.map (fun i => (i.name, i.methods.map fun f =>
          (f.parameters.map (·.type.text), f.returns.map (·.text)))) =
        [("c.I", [(["[]d.D"], some "c.I")])] ∧
      (⟨disk, ⟨⟨"/a"⟩, "/a", "namespace a import \"b\" import \"c\" struct A { x b.B y E }"⟩⟩ :
        Graph).Collects order m ∧ order = [⟨"/a"⟩, ⟨"/b"⟩, ⟨"/d"⟩, ⟨"/c"⟩] := by
  obtain ⟨disk, hdisk⟩ : ∃ disk, disk = FileTree.toDisk
    ⟨[(["b"], .file "namespace b import \"d\" struct B { x E y d.D z A } enum E { }".toUTF8),
      (["c"], .file "namespace c import \"d\" interface I { f(x []d.D) I }".toUTF8),
      (["d"], .file "namespace d struct D { x map[string]D }".toUTF8)], .present []⟩ := ⟨_, rfl⟩
  have hlocate : locate disk none ⟨"/a"⟩ = .ok ⟨"/a"⟩ := rfl
  have hreadB : disk.read ⟨"/b"⟩ =
      .ok "namespace b import \"d\" struct B { x E y d.D z A } enum E { }" := by
    rw [hdisk]
    decide +kernel
  have hreadC : disk.read ⟨"/c"⟩ =
      .ok "namespace c import \"d\" interface I { f(x []d.D) I }" := by
    rw [hdisk]
    decide +kernel
  have hreadD : disk.read ⟨"/d"⟩ = .ok "namespace d struct D { x map[string]D }" := by
    rw [hdisk]
    decide +kernel
  have hloadA : (⟨⟨"/a"⟩, "/a", "namespace a import \"b\" import \"c\" struct A { x b.B y E }"⟩ :
      SourceUnit).load.1.toOption =
      some (⟨"/a", "a", [], [⟨"A", "a", "",
          [⟨"x", .named ⟨"b.B", ⟨"/a", 1, 48, 47⟩⟩, false, "", ⟨"/a", 1, 46, 45⟩⟩,
            ⟨"y", .named ⟨"E", ⟨"/a", 1, 54, 53⟩⟩, false, "", ⟨"/a", 1, 52, 51⟩⟩],
          "", ⟨"/a", 1, 35, 34⟩⟩], []⟩,
        [⟨"b", ⟨"/a", 1, 13, 12⟩, 22⟩, ⟨"c", ⟨"/a", 1, 24, 23⟩, 33⟩]) := by
    decide +kernel
  have hloadB : (⟨⟨"/b"⟩, "/b", "namespace b import \"d\" struct B { x E y d.D z A } enum E { }"⟩ :
      SourceUnit).load.1.toOption =
      some (⟨"/b", "b", [], [⟨"B", "b", "",
          [⟨"x", .named ⟨"E", ⟨"/b", 1, 37, 36⟩⟩, false, "", ⟨"/b", 1, 35, 34⟩⟩,
            ⟨"y", .named ⟨"d.D", ⟨"/b", 1, 41, 40⟩⟩, false, "", ⟨"/b", 1, 39, 38⟩⟩,
            ⟨"z", .named ⟨"A", ⟨"/b", 1, 47, 46⟩⟩, false, "", ⟨"/b", 1, 45, 44⟩⟩],
          "", ⟨"/b", 1, 24, 23⟩⟩], [⟨"E", "b", [], "", ⟨"/b", 1, 51, 50⟩⟩]⟩,
        [⟨"d", ⟨"/b", 1, 13, 12⟩, 22⟩]) := by
    decide +kernel
  have hloadC : (⟨⟨"/c"⟩, "/c", "namespace c import \"d\" interface I { f(x []d.D) I }"⟩ :
      SourceUnit).load.1.toOption =
      some (⟨"/c", "c", [⟨"I", "c", [⟨"f",
          [⟨"x", .array (.named ⟨"d.D", ⟨"/c", 1, 44, 43⟩⟩), ⟨"/c", 1, 40, 39⟩⟩],
          some (.named ⟨"I", ⟨"/c", 1, 49, 48⟩⟩), false, "", ⟨"/c", 1, 38, 37⟩⟩],
          "", ⟨"/c", 1, 24, 23⟩⟩], [], []⟩,
        [⟨"d", ⟨"/c", 1, 13, 12⟩, 22⟩]) := by
    decide +kernel
  have hloadD : (⟨⟨"/d"⟩, "/d", "namespace d struct D { x map[string]D }"⟩ :
      SourceUnit).load.1.toOption =
      some (⟨"/d", "d", [], [⟨"D", "d", "",
          [⟨"x", .mapOf (.named ⟨"D", ⟨"/d", 1, 37, 36⟩⟩), false, "", ⟨"/d", 1, 24, 23⟩⟩],
          "", ⟨"/d", 1, 13, 12⟩⟩], []⟩, []) := by
    decide +kernel
  -- the file at the bottom is visited below `/b` and left out below `/c`
  have hrun := Follows.resolve hlocate hloadA
    (.visit (by decide +kernel) (by decide +kernel) (by decide +kernel) hreadB hloadB
      (.visit (by decide +kernel) (by decide +kernel) (by decide +kernel) hreadD hloadD .done
        (by decide) .done)
      (by decide)
      (.visit (by decide +kernel) (by decide +kernel) (by decide +kernel) hreadC hloadC
        (.skip (by decide +kernel) (by decide +kernel) .done) (by decide) .done)) (by decide)
  obtain ⟨path, order, hpath, hcollects, _, hunique, _⟩ := resolve_collects hrun
  rw [hlocate] at hpath
  cases hpath
  have hwalk : (⟨disk, ⟨⟨"/a"⟩, "/a",
      "namespace a import \"b\" import \"c\" struct A { x b.B y E }"⟩⟩ : Graph).Preorder
        [] [⟨"/a"⟩] [⟨"/a"⟩, ⟨"/b"⟩, ⟨"/d"⟩, ⟨"/c"⟩] := by
    refine .visit (by decide) ?_
    rw [targets_of_load (Graph.unitAt_root _) hloadA
      (show _ = [⟨"/b"⟩, ⟨"/c"⟩] by dsimp only; decide +kernel)]
    refine .visit (by decide) ?_
    rw [targets_of_load (Graph.unitAt_of_read ?_ hreadB) hloadB
      (show _ = [⟨"/d"⟩] by decide +kernel)]
    refine .visit (by decide) ?_
    rw [targets_of_load (Graph.unitAt_of_read ?_ hreadD) hloadD rfl]
    refine .visit (by decide) ?_
    rw [targets_of_load (Graph.unitAt_of_read ?_ hreadC) hloadC
      (show _ = [⟨"/d"⟩] by decide +kernel)]
    exact .skip (by decide) (.done _)
    all_goals simp
  refine ⟨disk, _, order, hdisk, hrun, ?_, ?_, ?_, hcollects, (hunique _ hwalk).symm⟩
  · decide +kernel
  · decide +kernel
  · decide +kernel

end InterfaceLang.Imports
