import InterfaceLang.Diagnostic.Failure
import InterfaceLang.Imports.Registry
import InterfaceLang.Model.Lowering
import InterfaceLang.Model.Qualify
import InterfaceLang.Parser

/-!
# Sessions

The calls of a session share a chain, a registry and a list of reports. The chain holds the files
whose imports are being followed. Nothing is assumed about the state in which a call begins: chain
and registry may be left over from earlier calls, and from ones that failed.

A call ends with an outcome and the state it has left. Its chain is the one the call began with; the
proof of that is part of how a call ends (`Session.Ended`), because calls that follow each other end
only if each gives back the chain. A call also gives its moments: what it is about to do and what
chain and registry are then.
-/

namespace InterfaceLang

/-- A file to resolve: where it is, the name under which messages show it, and its text. -/
structure SourceUnit where
  path : Path
  name : String
  text : String
  deriving DecidableEq, Repr

namespace SourceUnit

/-- The text of a file under its shown name. -/
def source (u : SourceUnit) : SourceText :=
  ⟨u.name, u.text⟩

/-- The model of a file by itself and its imports, with what parsing it reports. -/
def load (u : SourceUnit) : Except Failure (Model × List Directive) × List Event :=
  match Parser.ofSource u.source with
  | .error e => (.error (.ofSyntax e), [])
  | .ok p =>
    match p.readRest.1 with
    | .error e => (.error (.ofSyntax e), p.events)
    | .ok f =>
      match f.toModel u.text with
      | .error e => (.error (.ofImport e), p.events)
      | .ok m => (.ok (m, f.imports), p.events)

/-- The spot of an import directive. -/
def spotOf (u : SourceUnit) (d : Directive) : Spot :=
  ⟨u.source, d.span, d.pos⟩

/-- The spot of a file as a whole. -/
def spot (u : SourceUnit) : Spot :=
  ⟨u.source, ⟨0, 0⟩, .start u.name⟩

end SourceUnit

namespace Imports

/-- The registry of a resolution and what it has reported. -/
structure Progress where
  registry : Registry
  events : List Event

namespace Progress

/-- Nothing done yet. -/
def start : Progress :=
  ⟨.empty, []⟩

/-- Adds reports. -/
def log (st : Progress) (es : List Event) : Progress :=
  { st with events := st.events ++ es }

/-- Notes that a file is in the model. -/
def addFile (st : Progress) (p : Path) : Progress :=
  { st with registry := st.registry.addFile p }

end Progress

/-- Claims the namespace of a resolved file, if it has one. -/
def claim (u : SourceUnit) (m : Model) (st : Progress) : Except Failure Model × Progress :=
  if m.rootNs = "" then (.ok m, st)
  else
    match st.registry.claim m.rootNs u.path with
    | .ok r => (.ok m, { st with registry := r })
    | .error first =>
      (.error (.ofImport (.duplicateNamespace m.rootNs first.text u.path.text u.spot)), st)

/-! ## Moments -/

/-- What a resolution is about to do. -/
inductive Action where
  /-- A file is to be resolved. -/
  | resolve (u : SourceUnit)
  /-- An import directive of a file is to be examined. -/
  | examine (u : SourceUnit) (d : Directive)
  /-- The text at a path is to be read. -/
  | read (p : Path)
  /-- The model of an imported file is to be merged. -/
  | merge (sub : Model)

/-- A moment of a resolution. -/
structure Moment where
  /-- The number of files that are being resolved, the one that is about to be included. -/
  depth : Nat
  chain : List Path
  registry : Registry
  action : Action

/-! ## The state of a session -/

/-- The state that the calls of a session share. -/
structure Session where
  chain : List Path
  progress : Progress

namespace Session

/-- The registry of a session. -/
def registry (s : Session) : Registry :=
  s.progress.registry

/-- Puts a file at the end of the chain. -/
def push (s : Session) (p : Path) : Session :=
  { s with chain := s.chain ++ [p] }

/-- Takes the last file off the chain. -/
def pop (s : Session) : Session :=
  { s with chain := s.chain.dropLast }

/-- Adds reports. -/
def log (s : Session) (es : List Event) : Session :=
  { s with progress := s.progress.log es }

/-- Notes that a file is in the model. -/
def addFile (s : Session) (p : Path) : Session :=
  { s with progress := s.progress.addFile p }

/-- Takes over what a call that leaves the chain alone has done. -/
def advance (s : Session) (st : Progress) : Session :=
  { s with progress := st }

/-- The moment at which something is about to be done. -/
def moment (s : Session) (depth : Nat) (a : Action) : Moment :=
  ⟨depth, s.chain, s.registry, a⟩

theorem chain_log (s : Session) (es : List Event) : (s.log es).chain = s.chain := rfl

/-- What has been pushed last is what is popped. -/
theorem chain_pop {s s' : Session} {p : Path} (h : s'.chain = (s.push p).chain) :
    s'.pop.chain = s.chain := by
  show s'.chain.dropLast = s.chain
  rw [h]
  exact List.dropLast_concat

/-- How a call that began in the state `s` has ended. The chain is the one it began with; that is
what lets calls follow each other. -/
structure Ended (s : Session) where
  result : Except Failure Model
  session : Session
  /-- The moments of the call, given the number of files that are being resolved during it. -/
  moments : Nat → List Moment
  chain_eq : session.chain = s.chain

namespace Ended

variable {s s' : Session}

/-- The result of a call and the state it has left. -/
def run (e : Ended s) : Except Failure Model × Session :=
  (e.result, e.session)

/-- The result of a call and what has been done, without the chain. -/
def outcome (e : Ended s) : Except Failure Model × Progress :=
  (e.result, e.session.progress)

/-- The same end, seen from an earlier state with the same chain; `ms` are the moments between the
two states. -/
def since (e : Ended s') (h : s'.chain = s.chain) (ms : Nat → List Moment) : Ended s :=
  ⟨e.result, e.session, fun depth => ms depth ++ e.moments depth, e.chain_eq.trans h⟩

end Ended

end Session

end Imports

end InterfaceLang
