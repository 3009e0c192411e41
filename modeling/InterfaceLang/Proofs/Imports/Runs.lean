import InterfaceLang.Proofs.Imports.Calls
import InterfaceLang.Proofs.Imports.Consistency

/-!
# Runs without reports

What following imports comes to can be written down without the reports: a derivation has one rule
for each way to go on, and a rule asks only for facts about texts, paths and the registry. `Follows`
derives a model and a registry, `Fails` a failure. From a derivation the outcome of the call
follows, whatever has been reported before it. So what given texts lead to is found one file at a
time.

Results:
* `Follows.resolveImports`, `Follows.resolveFile`, `Follows.resolve`: a call for which there is a
  derivation succeeds with the model and the registry that the derivation ends in.
* `Fails.resolveImports`, `Fails.resolveFile`, `Fails.resolve`: a call for which a failure is
  derived ends in it.
-/

namespace InterfaceLang.Imports

/-- The registry after a resolved file has claimed its namespace, if it has one; the namespace was
free. -/
def settle (r : Registry) (ns : String) (p : Path) : Registry :=
  if ns = "" then r else { r with owners := r.owners ++ [(ns, p)] }

/-- Following the imports of `u` leads from the model `m` and the registry `r` to `m'` and `r'`. -/
inductive Follows (disk : Disk) : List Path → SourceUnit → List Directive → Model → Registry →
    Model → Registry → Prop
  /-- There are no more imports. -/
  | done {chain u m r} : Follows disk chain u [] m r m r
  /-- The imported file is included already. -/
  | skip {chain u d rest m r m' r'} : ¬onChain chain (u.path.target d.path) = true →
      r.includes (u.path.target d.path) = true → Follows disk chain u rest m r m' r' →
      Follows disk chain u (d :: rest) m r m' r'
  /-- The imported file is read, its imports are followed, and it claims its namespace. -/
  | visit {chain u d rest m r p text sub imports sub' r₁ m' r'} : u.path.target d.path = p →
      ¬onChain chain p = true → ¬r.includes p = true → disk.read p = .ok text →
      (⟨p, p.text, text⟩ : SourceUnit).load.1.toOption = some (sub, imports) →
      Follows disk (chain ++ [p]) ⟨p, p.text, text⟩ imports sub (r.addFile p) sub' r₁ →
      r₁.owner? sub'.rootNs = none →
      Follows disk chain u rest (m.merge sub') (settle r₁ sub'.rootNs p) m' r' →
      Follows disk chain u (d :: rest) m r m' r'

/-- Following the imports of `u` from the model `m` and the registry `r` fails with `f`. -/
inductive Fails (disk : Disk) : List Path → SourceUnit → List Directive → Model → Registry →
    Failure → Prop
  /-- The imported file is on the chain. -/
  | cycle {chain u d rest m r} : onChain chain (u.path.target d.path) = true →
      Fails disk chain u (d :: rest) m r
        (.ofImport (.circularImport (cycleOf chain (u.path.target d.path)) (u.spotOf d)))
  /-- Another file has the namespace of the imported one. -/
  | taken {chain u d rest m r p text sub imports sub' r₁ owner} : u.path.target d.path = p →
      ¬onChain chain p = true → ¬r.includes p = true → disk.read p = .ok text →
      (⟨p, p.text, text⟩ : SourceUnit).load.1.toOption = some (sub, imports) →
      Follows disk (chain ++ [p]) ⟨p, p.text, text⟩ imports sub (r.addFile p) sub' r₁ →
      sub'.rootNs ≠ "" → r₁.owner? sub'.rootNs = some owner → ¬owner.same p = true →
      Fails disk chain u (d :: rest) m r
        (.ofImport (.duplicateNamespace sub'.rootNs owner.text p.text (u.spotOf d)))
  /-- Following the imports of the imported file fails. -/
  | within {chain u d rest m r p text sub imports f} : u.path.target d.path = p →
      ¬onChain chain p = true → ¬r.includes p = true → disk.read p = .ok text →
      (⟨p, p.text, text⟩ : SourceUnit).load.1.toOption = some (sub, imports) →
      Fails disk (chain ++ [p]) ⟨p, p.text, text⟩ imports sub (r.addFile p) f →
      Fails disk chain u (d :: rest) m r (relocate u d p f)
  /-- The first import can be followed, and following the others fails. -/
  | later {chain u d rest m r m' r' f} : Follows disk chain u [d] m r m' r' →
      Fails disk chain u rest m' r' f → Fails disk chain u (d :: rest) m r f

/-- A file whose load gives something loads. -/
theorem load_of_toOption {u : SourceUnit} {x : Model × List Directive}
    (h : u.load.1.toOption = some x) : ∃ es, u.load = (.ok x, es) := by
  cases hload : u.load with
  | mk result es =>
    rw [hload] at h
    cases result with
    | error e => cases h
    | ok y =>
      cases h
      exact ⟨es, rfl⟩

/-- Claiming a namespace that nobody owns. -/
theorem claim_of_free (u : SourceUnit) {m : Model} {st : Progress}
    (h : st.registry.owner? m.rootNs = none) :
    claim u m st = (.ok m, ⟨settle st.registry m.rootNs u.path, st.events⟩) := by
  unfold claim settle Registry.claim
  split
  · rfl
  · rw [h]

namespace Follows

variable {disk : Disk} {chain : List Path} {u : SourceUnit} {imports : List Directive}
  {m m' : Model} {r r' : Registry}

/-- After imports for which there is a derivation the others are followed, whatever has been
reported. -/
theorem resolveImports_append (h : Follows disk chain u imports m r m' r') (rest : List Directive)
    (es : List Event) :
    ∃ es', Imports.resolveImports disk chain u (imports ++ rest) m ⟨r, es⟩ =
      Imports.resolveImports disk chain u rest m' ⟨r', es'⟩ := by
  induction h generalizing rest es with
  | done => exact ⟨es, rfl⟩
  | skip hchain hinc _ ih =>
    rw [List.cons_append, resolveImports_of_included hchain hinc]
    exact ih rest _
  | visit htarget hchain hinc hread hload _ hfree _ ihimports ihrest =>
    obtain ⟨loaded, hload⟩ := load_of_toOption hload
    obtain ⟨es', himports⟩ := ihimports [] _
    rw [List.append_nil, resolveImports_nil] at himports
    rw [List.cons_append, resolveImports_of_read_ok htarget hchain hinc hread,
      resolveFile_of_imports_ok hload himports,
      claim_of_free _ hfree]
    exact ihrest rest _

/-- Imports for which there is a derivation are followed, whatever has been reported. -/
theorem resolveImports (h : Follows disk chain u imports m r m' r') (es : List Event) :
    ∃ es', Imports.resolveImports disk chain u imports m ⟨r, es⟩ = (.ok m', ⟨r', es'⟩) := by
  obtain ⟨es', himports⟩ := h.resolveImports_append [] es
  rw [List.append_nil, resolveImports_nil] at himports
  exact ⟨es', himports⟩

/-- A file is resolved if there is a derivation for its imports and its namespace is free then. -/
theorem resolveFile (chain : List Path) (st : Progress)
    (hload : u.load.1.toOption = some (m, imports))
    (h : Follows disk (chain ++ [u.path]) u imports m (st.registry.addFile u.path) m' r')
    (hfree : r'.owner? m'.rootNs = none) :
    ∃ es, Imports.resolveFile disk chain u st = (.ok m', ⟨settle r' m'.rootNs u.path, es⟩) := by
  obtain ⟨loaded, hload⟩ := load_of_toOption hload
  obtain ⟨es, himports⟩ := h.resolveImports (st.events ++ .resolving u.path.text :: loaded)
  exact ⟨es, (resolveFile_of_imports_ok hload himports).trans (claim_of_free u hfree)⟩

/-- A root is resolved if there is a derivation for its imports and its namespace is free then. -/
theorem resolve {baseDir : Option Path} {name text : String} {path : Path}
    (hlocate : locate disk baseDir ⟨name⟩ = .ok path)
    (hload : (⟨path, name, text⟩ : SourceUnit).load.1.toOption = some (m, imports))
    (h : Follows disk [path] ⟨path, name, text⟩ imports m (Registry.empty.addFile path) m' r')
    (hfree : r'.owner? m'.rootNs = none) :
    (resolve disk baseDir name text).1 = .ok { m' with file := name } := by
  obtain ⟨es, hfile⟩ : ∃ es, Imports.resolveFile disk [] ⟨path, name, text⟩ .start =
      (.ok m', ⟨settle r' m'.rootNs path, es⟩) :=
    resolveFile [] .start hload h hfree
  rw [resolve_eq_of_locate hlocate, hfile]
  rfl

end Follows

namespace Fails

variable {disk : Disk} {chain : List Path} {u : SourceUnit} {imports : List Directive}
  {m : Model} {r : Registry} {f : Failure}

/-- Following imports ends in a failure that is derived, whatever has been reported. -/
theorem resolveImports (h : Fails disk chain u imports m r f) (es : List Event) :
    ∃ st, Imports.resolveImports disk chain u imports m ⟨r, es⟩ = (.error f, st) := by
  induction h generalizing es with
  | cycle hchain => exact ⟨_, resolveImports_of_onChain hchain⟩
  | @taken chain u d rest m r p text sub imports sub' r₁ owner htarget hchain hinc hread hload
      himports hns howner hsame =>
    obtain ⟨loaded, hload⟩ := load_of_toOption hload
    obtain ⟨es', himports⟩ := himports.resolveImports
      (es ++ [.importing u.path.text p.text] ++ .resolving p.text :: loaded)
    have hclaim : claim ⟨p, p.text, text⟩ sub' ⟨r₁, es'⟩ = (.error (.ofImport (.duplicateNamespace
        sub'.rootNs owner.text p.text (SourceUnit.spot ⟨p, p.text, text⟩))), ⟨r₁, es'⟩) := by
      simp only [claim, if_neg hns, Registry.claim, howner, if_neg hsame]
    have hfile : Imports.resolveFile disk chain ⟨p, p.text, text⟩
        (Progress.log ⟨r, es⟩ [.importing u.path.text p.text]) = _ :=
      (resolveFile_of_imports_ok hload himports).trans hclaim
    rw [resolveImports_of_read_ok htarget hchain hinc hread, hfile]
    simp only [relocate, if_true]
    exact ⟨_, rfl⟩
  | @within chain u d rest m r p text sub imports f htarget hchain hinc hread hload _ ih =>
    obtain ⟨loaded, hload⟩ := load_of_toOption hload
    obtain ⟨st, himports⟩ := ih
      (es ++ [.importing u.path.text p.text] ++ .resolving p.text :: loaded)
    have hfile : Imports.resolveFile disk chain ⟨p, p.text, text⟩
        (Progress.log ⟨r, es⟩ [.importing u.path.text p.text]) = (.error f, st) :=
      resolveFile_of_imports_error hload himports
    rw [resolveImports_of_read_ok htarget hchain hinc hread, hfile]
    exact ⟨_, rfl⟩
  | later hfirst _ ih =>
    obtain ⟨es', hfirst⟩ := hfirst.resolveImports_append _ es
    obtain ⟨st, hrest⟩ := ih es'
    exact ⟨st, hfirst.trans hrest⟩

/-- Resolving a file ends in a failure that is derived for its imports. -/
theorem resolveFile (chain : List Path) (st : Progress)
    (hload : u.load.1.toOption = some (m, imports))
    (h : Fails disk (chain ++ [u.path]) u imports m (st.registry.addFile u.path) f) :
    ∃ st', Imports.resolveFile disk chain u st = (.error f, st') := by
  obtain ⟨loaded, hload⟩ := load_of_toOption hload
  obtain ⟨st', himports⟩ := h.resolveImports (st.events ++ .resolving u.path.text :: loaded)
  exact ⟨st', resolveFile_of_imports_error hload himports⟩

/-- Resolving a root ends in a failure that is derived for its imports. -/
theorem resolve {baseDir : Option Path} {name text : String} {path : Path}
    (hlocate : locate disk baseDir ⟨name⟩ = .ok path)
    (hload : (⟨path, name, text⟩ : SourceUnit).load.1.toOption = some (m, imports))
    (h : Fails disk [path] ⟨path, name, text⟩ imports m (Registry.empty.addFile path) f) :
    (resolve disk baseDir name text).1 = .error f := by
  obtain ⟨st, hfile⟩ : ∃ st, Imports.resolveFile disk [] ⟨path, name, text⟩ .start =
      (.error f, st) :=
    resolveFile [] .start hload h
  rw [resolve_eq_of_locate hlocate, hfile]
  rfl

end Fails

end InterfaceLang.Imports
