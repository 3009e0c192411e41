import InterfaceLang.Proofs.Imports.Graph

/-!
# Consistent registries

While imports are followed, the files on the chain are being worked on, and every other file that
is included has been settled: it can be lowered, all its imports are settled too, no cycle can be
reached from it, and it owns the namespace it declares. `Consistent` states this of a chain and a
registry. Two steps change them: a file enters the chain and is included, and a file whose imports
are settled claims its namespace and leaves the chain.

Results:
* `Consistent.enter`, `Consistent.leave`: the two steps keep a registry consistent.
* `Consistent.claim`: claiming the namespace of a file either is such a step or meets another file
  that declares the same namespace.
-/

namespace InterfaceLang

namespace Registry

variable {r r' : Registry} {p q : Path} {ns other : String}

/-- Between normal forms, being the same file is being the same path. -/
theorem any_same_iff {ps : List Path} (hps : ∀ q ∈ ps, q.IsNormalForm) (hp : p.IsNormalForm) :
    ps.any (·.same p) = true ↔ p ∈ ps := by
  rw [List.any_eq_true]
  constructor
  · rintro ⟨q, hq, hsame⟩
    rwa [← (Path.same_iff_eq (hps q hq) hp).1 hsame]
  · intro h
    exact ⟨p, h, (Path.same_iff_eq hp hp).2 rfl⟩

theorem includes_iff (hr : ∀ q ∈ r.included, q.IsNormalForm) (hp : p.IsNormalForm) :
    r.includes p = true ↔ p ∈ r.included :=
  any_same_iff hr hp

/-- Including a file that is not included yet puts it last. -/
theorem addFile_of_not_includes (h : ¬r.includes p = true) :
    r.addFile p = { r with included := r.included ++ [p] } := by
  rw [addFile, if_neg h]

/-- A claim that succeeds either finds the namespace with the same file or takes it. -/
theorem claim_eq_ok (h : r.claim ns p = .ok r') :
    (∃ first, r.owner? ns = some first ∧ first.same p = true ∧ r' = r) ∨
      (r.owner? ns = none ∧ r' = { r with owners := r.owners ++ [(ns, p)] }) := by
  unfold claim at h
  split at h
  · next first hfirst =>
    split at h <;> cases h
    next hsame => exact .inl ⟨first, hfirst, hsame, rfl⟩
  · next hnone =>
    cases h
    exact .inr ⟨hnone, rfl⟩

/-- A claim that fails meets the owner of the namespace, another file. -/
theorem claim_eq_error (h : r.claim ns p = .error q) :
    r.owner? ns = some q ∧ ¬q.same p = true := by
  unfold claim at h
  split at h
  · next first hfirst =>
    split at h <;> cases h
    next hsame => exact ⟨hfirst, hsame⟩
  · cases h

/-- A free namespace that is given away has its new owner, and the others keep theirs. -/
theorem owner?_concat (hnone : r.owner? ns = none) :
    ({ r with owners := r.owners ++ [(ns, p)] } : Registry).owner? other =
      if other = ns then some p else r.owner? other := by
  unfold owner? at hnone ⊢
  rw [List.lookup_append]
  by_cases h : other = ns
  · subst h
    simp [hnone]
  · have hne : (other == ns) = false := by simpa using h
    simp [List.lookup_cons, hne, h]

end Registry

namespace Imports

variable {g : Graph} {chain : List Path} {r r' : Registry} {p q : Path}

/-- A path of imports that starts at the root. -/
structure Trail (g : Graph) (chain : List Path) : Prop where
  walk : chain.IsChain g.Edge
  head : chain.head? = some g.root.path

/-- A file that has been resolved with everything it imports. -/
structure Settled (g : Graph) (chain : List Path) (r : Registry) (p : Path) : Prop where
  lowered : ∃ m, g.lowered? p = some m
  imports : ∀ q, g.Edge p q → q ∈ r.included ∧ q ∉ chain
  acyclic : Acc (fun b a => g.Edge a b) p
  owner : ∀ m, g.lowered? p = some m → m.rootNs ≠ "" → r.owner? m.rootNs = some p

/-- What holds of chain and registry while imports are followed. -/
structure Consistent (g : Graph) (chain : List Path) (r : Registry) : Prop where
  normal : ∀ p ∈ r.included, p.IsNormalForm
  reachable : ∀ p ∈ r.included, g.Reachable p
  chain_subset : chain ⊆ r.included
  settled : ∀ p ∈ r.included, p ∉ chain → Settled g chain r p
  owners : ∀ ns p, r.owner? ns = some p →
    p ∈ r.included ∧ p ∉ chain ∧ ∃ m, g.lowered? p = some m ∧ m.rootNs = ns

namespace Trail

/-- A trail goes on along an edge from its last file. -/
theorem concat (h : Trail g chain) (hlast : chain.getLast? = some p) (hedge : g.Edge p q) :
    Trail g (chain ++ [q]) where
  walk := by
    refine Walk.isChain_concat h.walk ?_
    intro x hx
    rw [hlast] at hx
    cases hx
    exact hedge
  head := by
    rw [List.head?_append, h.head]
    rfl

theorem root_mem (h : Trail g chain) : g.root.path ∈ chain :=
  List.mem_of_mem_head? h.head

/-- The last file of a trail can be reached from the root. -/
theorem reachable (h : Trail g chain) (hlast : chain.getLast? = some p) : g.Reachable p := by
  obtain ⟨hwalk, hhead⟩ := h
  cases chain with
  | nil => cases hhead
  | cons q rest =>
    cases hhead
    exact Walk.reaches_last hwalk hlast

end Trail

namespace Consistent

theorem empty (g : Graph) : Consistent g [] .empty where
  normal := by simp [Registry.empty]
  reachable := by simp [Registry.empty]
  chain_subset := List.nil_subset _
  settled := by simp [Registry.empty]
  owners := by simp [Registry.empty, Registry.owner?]

/-- The chain holds normal forms, so looking a file up on it is membership. -/
theorem onChain_iff (h : Consistent g chain r) (hp : p.IsNormalForm) :
    onChain chain p = true ↔ p ∈ chain :=
  Registry.any_same_iff (fun q hq => h.normal q (h.chain_subset hq)) hp

/-- The registry holds normal forms, so asking it for a file is membership. -/
theorem includes_iff (h : Consistent g chain r) (hp : p.IsNormalForm) :
    r.includes p = true ↔ p ∈ r.included :=
  Registry.includes_iff h.normal hp

/-- A file that is met for the first time enters the chain. -/
theorem enter (h : Consistent g chain r) (hp : p.IsNormalForm) (hreach : g.Reachable p)
    (hnew : p ∉ r.included) : Consistent g (chain ++ [p]) (r.addFile p) := by
  rw [Registry.addFile_of_not_includes (fun hinc => hnew ((h.includes_iff hp).1 hinc))]
  have hne : ∀ q ∈ r.included, q ∉ chain → q ∉ chain ++ [p] := by
    intro q hq hchain hmem
    rcases List.mem_append.1 hmem with hmem | hmem
    · exact hchain hmem
    · rw [List.mem_singleton.1 hmem] at hq
      exact hnew hq
  refine ⟨?normal, ?reachable, ?chain_subset, ?settled, ?owners⟩
  case normal =>
    intro q hq
    rcases List.mem_append.1 hq with hq | hq
    · exact h.normal q hq
    · rw [List.mem_singleton.1 hq]
      exact hp
  case reachable =>
    intro q hq
    rcases List.mem_append.1 hq with hq | hq
    · exact h.reachable q hq
    · rw [List.mem_singleton.1 hq]
      exact hreach
  case chain_subset =>
    exact List.append_subset.2 ⟨fun q hq => List.mem_append_left _ (h.chain_subset hq), by simp⟩
  case settled =>
    intro q hq hchain
    have hq' : q ∈ r.included := by
      rcases List.mem_append.1 hq with hq | hq
      · exact hq
      · exact absurd (List.mem_append_right _ hq) hchain
    have hs := h.settled q hq' fun hmem => hchain (List.mem_append_left _ hmem)
    refine ⟨hs.lowered, fun t ht => ?_, hs.acyclic, hs.owner⟩
    obtain ⟨hinc, hnot⟩ := hs.imports t ht
    exact ⟨List.mem_append_left _ hinc, hne t hinc hnot⟩
  case owners =>
    intro ns q hq
    obtain ⟨hinc, hnot, hm⟩ := h.owners ns q hq
    exact ⟨List.mem_append_left _ hinc, hne q hinc hnot, hm⟩

/-- A file whose imports are settled leaves the chain, if nothing changes in the registry but that
the file comes to own its namespace. -/
theorem leave {m : Model} (h : Consistent g (chain ++ [p]) r) (hp : p ∉ chain)
    (hm : g.lowered? p = some m)
    (himports : ∀ q, g.Edge p q → q ∈ r.included ∧ q ∉ chain ++ [p])
    (hincluded : r'.included = r.included)
    (hkeep : ∀ ns q, r.owner? ns = some q → r'.owner? ns = some q)
    (hnew : ∀ ns q, r'.owner? ns = some q → r.owner? ns = some q ∨ q = p ∧ m.rootNs = ns)
    (hown : m.rootNs ≠ "" → r'.owner? m.rootNs = some p) : Consistent g chain r' := by
  have hoff : ∀ q, q ∉ chain ++ [p] → q ∉ chain :=
    fun q hq hmem => hq (List.mem_append_left _ hmem)
  have hinc : p ∈ r.included := h.chain_subset (by simp)
  refine ⟨?normal, ?reachable, ?chain_subset, ?settled, ?owners⟩
  case normal =>
    rw [hincluded]
    exact h.normal
  case reachable =>
    rw [hincluded]
    exact h.reachable
  case chain_subset =>
    rw [hincluded]
    exact fun q hq => h.chain_subset (List.mem_append_left _ hq)
  case settled =>
    intro q hq hchain
    rw [hincluded] at hq
    by_cases hqp : q = p
    · subst hqp
      -- nothing below `p` is on the chain, so its imports are settled and reach no cycle
      refine ⟨⟨m, hm⟩, fun t ht => ?_, ⟨_, fun t ht => ?_⟩, fun m' hm' hns => ?_⟩
      · rw [hincluded]
        exact ⟨(himports t ht).1, hoff t (himports t ht).2⟩
      · exact (h.settled t (himports t ht).1 (himports t ht).2).acyclic
      · rw [hm] at hm'
        cases hm'
        exact hown hns
    · have hs := h.settled q hq (by simp [hchain, hqp])
      refine ⟨hs.lowered, fun t ht => ?_, hs.acyclic, fun m' hm' hns => ?_⟩
      · rw [hincluded]
        exact ⟨(hs.imports t ht).1, hoff t (hs.imports t ht).2⟩
      · exact hkeep _ _ (hs.owner m' hm' hns)
  case owners =>
    intro ns q hq
    rw [hincluded]
    rcases hnew ns q hq with hq | ⟨rfl, hns⟩
    · obtain ⟨hqinc, hqoff, hm'⟩ := h.owners ns q hq
      exact ⟨hqinc, hoff q hqoff, hm'⟩
    · exact ⟨hinc, hp, m, hm, hns⟩

/-- A file on the chain owns nothing yet, so a claim that succeeds takes a free namespace. -/
theorem owner?_eq_none_of_claim {ns : String} (h : Consistent g chain r) (hp : p ∈ chain)
    (hclaim : r.claim ns p = .ok r') :
    r.owner? ns = none ∧ r' = { r with owners := r.owners ++ [(ns, p)] } := by
  rcases Registry.claim_eq_ok hclaim with ⟨first, hfirst, hsame, _⟩ | hfree
  · obtain ⟨hinc, hoff, _⟩ := h.owners ns first hfirst
    rw [(Path.same_iff_eq (h.normal first hinc) (h.normal p (h.chain_subset hp))).1 hsame] at hoff
    exact absurd hp hoff
  · exact hfree

/-- What claiming the namespace of a resolved file comes to. -/
theorem claim {u : SourceUnit} {m own : Model} {st : Progress}
    (h : Consistent g (chain ++ [u.path]) st.registry) (hp : u.path ∉ chain)
    (hown : g.lowered? u.path = some own) (hns : m.rootNs = own.rootNs)
    (himports : ∀ q, g.Edge u.path q → q ∈ st.registry.included ∧ q ∉ chain ++ [u.path]) :
    (∃ st', Imports.claim u m st = (.ok m, st') ∧ Consistent g chain st'.registry ∧
      st'.registry.included = st.registry.included) ∨
    (∃ e q, Imports.claim u m st = (.error e, st) ∧ q ≠ u.path ∧ g.Reachable q ∧
      m.rootNs ≠ "" ∧ g.Declares q m.rootNs ∧ g.Declares u.path m.rootNs) := by
  unfold Imports.claim
  by_cases hroot : m.rootNs = ""
  · rw [if_pos hroot]
    refine .inl ⟨st, rfl, ?_, rfl⟩
    exact h.leave hp hown himports rfl (fun _ _ hq => hq) (fun _ _ hq => .inl hq)
      (fun hne => absurd (hns ▸ hroot) hne)
  · rw [if_neg hroot]
    cases hclaim : st.registry.claim m.rootNs u.path with
    | ok r =>
      obtain ⟨hnone, rfl⟩ := h.owner?_eq_none_of_claim (by simp) hclaim
      refine .inl ⟨_, rfl, ?_, rfl⟩
      refine h.leave hp hown himports rfl (fun ns q hq => ?_) (fun ns q hq => ?_) (fun _ => ?_)
      · exact Registry.owner?_claim_of_some hclaim hq
      · rw [Registry.owner?_concat hnone] at hq
        split at hq
        · next hns' =>
          cases hq
          exact .inr ⟨rfl, (hns.symm.trans hns'.symm)⟩
        · exact .inl hq
      · rw [Registry.owner?_concat hnone, if_pos hns.symm]
    | error first =>
      obtain ⟨hfirst, hsame⟩ := Registry.claim_eq_error hclaim
      obtain ⟨hinc, _, m', hm', hns'⟩ := h.owners _ _ hfirst
      refine .inr ⟨_, first, rfl, ?_, h.reachable first hinc, hroot, ?_, ?_⟩
      · rintro rfl
        exact hsame ((Path.same_iff_eq (h.normal _ hinc) (h.normal _ hinc)).2 rfl)
      · exact (Graph.declares_iff hm' hroot).2 hns'
      · exact (Graph.declares_iff hown hroot).2 hns.symm

end Consistent

end Imports

end InterfaceLang
