import InterfaceLang.Disk.ReadFailure
import InterfaceLang.Path

/-!
# Disks

A disk is what imports are read from: it gives the text of a file or the cause for which it cannot
be read, and it has a working directory or has lost it. Only finitely many paths in normal form can
be read; the disk lists them, so that following imports ends.
-/

namespace InterfaceLang

/-- A collection of files that can be read by path. -/
structure Disk where
  read : Path → Except ReadFailure String
  workingDir : Except ReadFailure Path
  /-- The components of every path in normal form that can be read, and possibly of others. -/
  readable : List (List Component)
  mem_readable : ∀ (p : Path) (text : String),
    read p.normalize = .ok text → p.normalize.components ∈ readable

end InterfaceLang
