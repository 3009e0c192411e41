import InterfaceLang.Disk
import InterfaceLang.Imports.Session
import InterfaceLang.Walk

/-!
# Following imports

A file is resolved by lowering it and then, for each of its imports in order, resolving the
imported file and merging its model. A file is on the chain while its imports are followed;
importing one of the files on the chain is a cycle. Importing a file that is in the model already
adds nothing. A file claims its namespace after its imports have been followed, so that a cycle is
reported as a cycle even if the files on it share a namespace.

The registry and the events are kept also when resolving fails, and the file is taken off the chain
in whatever way following its imports has ended. The recursion ends because every file that is read
from the disk is not on the chain, and the disk can read finitely many.

`Session.resolveFile` and `Session.resolveImports` are the recursion. What a call gives that is
handed a chain and gives none back (`resolveFile`, `resolveImports`) is read off how it ends.
-/

namespace InterfaceLang

namespace Imports

/-- Whether a path is on the chain. -/
def onChain (chain : List Path) (p : Path) : Bool :=
  chain.any (·.same p)

/-- The cycle that an import of `p` closes: the chain from `p` on, and `p` again. -/
def cycleOf (chain : List Path) (p : Path) : List String :=
  (chain.dropWhile (!·.same p)).map (·.text) ++ [p.text]

/-- Points a clash over the namespace of the imported file at the directive that imports it. -/
def relocate (u : SourceUnit) (d : Directive) (imported : Path) (f : Failure) : Failure :=
  match f with
  | .ofImport (.duplicateNamespace ns first second spot) =>
    .ofImport (.duplicateNamespace ns first second
      (if second = imported.text then u.spotOf d else spot))
  | f => f

/-- The components of the files on a chain. -/
def chainComponents (chain : List Path) : List (List Component) :=
  chain.map (·.components)

/-- The number of readable files that are not on a chain. -/
def fresh (disk : Disk) (chain : List Path) : Nat :=
  Walk.fresh disk.readable (chainComponents chain)

theorem not_mem_chainComponents {chain : List Path} {p : Path} (h : ¬onChain chain p = true) :
    p.components ∉ chainComponents chain := by
  intro hmem
  obtain ⟨q, hq, heq⟩ := List.mem_map.1 hmem
  exact h (List.any_eq_true.2 ⟨q, hq, by simp [Path.same, heq]⟩)

theorem fresh_concat_lt {disk : Disk} {chain : List Path} {p : Path} {d text : String}
    (hchain : ¬onChain chain (p.target d) = true) (hread : disk.read (p.target d) = .ok text) :
    fresh disk (chain ++ [p.target d]) < fresh disk chain := by
  have h := Walk.fresh_concat_lt (disk.mem_readable _ _ hread) (not_mem_chainComponents hchain)
  simpa [fresh, chainComponents, Path.target] using h

namespace Session

mutual

/-- Resolves a file. The imports are followed with the file on the chain; it is taken off again
before their outcome is looked at. -/
def resolveFile (disk : Disk) (u : SourceUnit) (s : Session) : Ended s :=
  match u.load with
  | (.error f, es) =>
    ⟨.error f, s.log (.resolving u.path.text :: es), fun depth => [s.moment depth (.resolve u)],
      rfl⟩
  | (.ok (m, imports), es) =>
    match resolveImports disk u imports m
        (((s.log (.resolving u.path.text :: es)).addFile u.path).push u.path) with
    | ⟨.error f, s', ms, h⟩ =>
      ⟨.error f, s'.pop, fun depth => s.moment depth (.resolve u) :: ms depth, chain_pop h⟩
    | ⟨.ok m, s', ms, h⟩ =>
      ⟨(claim u m s'.progress).1, s'.pop.advance (claim u m s'.progress).2,
        fun depth => s.moment depth (.resolve u) :: ms depth, chain_pop h⟩
termination_by (fresh disk (s.chain ++ [u.path]), 1, 0)
decreasing_by exact Prod.Lex.right _ (Prod.Lex.left _ _ (by decide))

/-- Follows the imports of a file, which is the last one on the chain, and merges them into `m`. -/
def resolveImports (disk : Disk) (u : SourceUnit) (imports : List Directive) (m : Model)
    (s : Session) : Ended s :=
  match imports with
  | [] => ⟨.ok m, s, fun _ => [], rfl⟩
  | d :: rest =>
    if _hchain : onChain s.chain (u.path.target d.path) then
      ⟨.error (.ofImport (.circularImport (cycleOf s.chain (u.path.target d.path)) (u.spotOf d))),
        s, fun depth => [s.moment depth (.examine u d)], rfl⟩
    else if s.registry.includes (u.path.target d.path) then
      (resolveImports disk u rest m
        (s.log [.alreadyIncluded u.path.text (u.path.target d.path).text])).since
          (chain_log s _) fun depth => [s.moment depth (.examine u d)]
    else
      match _hread : disk.read (u.path.target d.path) with
      | .error cause =>
        ⟨.error (.ofImport (.moduleNotFound d.path (u.path.target d.path).text (.reading cause)
            (u.spotOf d))), s,
          fun depth => [s.moment depth (.examine u d),
            s.moment depth (.read (u.path.target d.path))], rfl⟩
      | .ok text =>
        match resolveFile disk ⟨u.path.target d.path, (u.path.target d.path).text, text⟩
            (s.log [.importing u.path.text (u.path.target d.path).text]) with
        | ⟨.error f, s', ms, h⟩ =>
          ⟨.error (relocate u d (u.path.target d.path) f), s',
            fun depth => s.moment depth (.examine u d) ::
              s.moment depth (.read (u.path.target d.path)) :: ms (depth + 1),
            h.trans (chain_log s _)⟩
        | ⟨.ok sub, s', ms, h⟩ =>
          (resolveImports disk u rest (m.merge sub) (s'.log [sub.mergeEvent])).since
            ((chain_log s' _).trans (h.trans (chain_log s _)))
            fun depth => s.moment depth (.examine u d) ::
              s.moment depth (.read (u.path.target d.path)) :: ms (depth + 1) ++
                [s'.moment depth (.merge sub)]
termination_by (fresh disk s.chain, 0, imports.length)
decreasing_by
  · exact Prod.Lex.right _ (Prod.Lex.right _ (by simp))
  · exact Prod.Lex.left _ _ (fresh_concat_lt _hchain _hread)
  · -- the imported file has left the chain, so no file is fresh that was not before
    rw [chain_log, h, chain_log]
    exact Prod.Lex.right _ (Prod.Lex.right _ (by simp))

end

end Session

/-- Resolves a file that the files on the chain lead to. -/
def resolveFile (disk : Disk) (chain : List Path) (u : SourceUnit) (st : Progress) :
    Except Failure Model × Progress :=
  ((⟨chain, st⟩ : Session).resolveFile disk u).outcome

/-- Follows the imports of a file, which is the last one on the chain, and merges them into `m`. -/
def resolveImports (disk : Disk) (chain : List Path) (u : SourceUnit) (imports : List Directive)
    (m : Model) (st : Progress) : Except Failure Model × Progress :=
  ((⟨chain, st⟩ : Session).resolveImports disk u imports m).outcome

/-! ## Root files -/

/-- The complaint about a root file whose text is not to be had. -/
def rootNotFound (name resolved : String) (reason : LoadFailure) : ImportError :=
  .moduleNotFound name resolved reason ⟨⟨name, ""⟩, ⟨0, 0⟩, .start name⟩

/-- The normal form of a root path, seen from the base directory or else the working directory. -/
def locate (disk : Disk) (baseDir : Option Path) (p : Path) : Except ImportError Path :=
  if p.isAbsolute then .ok p.normalize
  else
    match baseDir with
    | some base => .ok (base.join p).normalize
    | none =>
      match disk.workingDir with
      | .ok base => .ok (base.join p).normalize
      | .error cause => .error (rootNotFound p.text p.text (.locating cause))

/-- Resolves a root file of the given name and text. -/
def resolve (disk : Disk) (baseDir : Option Path) (name text : String) :
    Except Failure Model × Progress :=
  match locate disk baseDir ⟨name⟩ with
  | .error e => (.error (.ofImport e), .start)
  | .ok path =>
    match resolveFile disk [] ⟨path, name, text⟩ .start with
    | (.error f, st) => (.error f, st)
    | (.ok m, st) => (.ok { m with file := name }, st)

/-- Reads a root file and resolves it. -/
def resolvePath (disk : Disk) (baseDir : Option Path) (p : Path) :
    Except Failure Model × Progress :=
  match locate disk baseDir p with
  | .error e => (.error (.ofImport e), .start)
  | .ok path =>
    match disk.read path with
    | .error cause => (.error (.ofImport (rootNotFound p.text path.text (.reading cause))), .start)
    | .ok text => resolve disk baseDir p.text text

end Imports

end InterfaceLang
