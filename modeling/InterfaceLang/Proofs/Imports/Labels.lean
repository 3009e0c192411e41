import InterfaceLang.Proofs.Diagnostic.Spots
import InterfaceLang.Proofs.Imports.Rings

/-!
# Labels of failed resolutions

A resolution can fail in any of the files that imports lead to, and a failure in one file may be
reported in the text of another: a namespace that is taken already is found out when the imports of
the second file have been followed, and reported at the directive that led there. `Failure.Labelled`
lists what a failure of resolving a file can be, each with the text that it points into and the
characters that it covers there. Its cases are closed under handing a failure on from an imported
file to the importing one, so that it holds of whatever a resolution returns.

Results:
* `labelled_relocate`: handing a failure on keeps its label right.
* `labelled_of_load_error`: the failures of a file by itself.
* `labelled_of_resolveFile`: the failures of a file and all that it imports.
* `labels_of_failures`: every syntax and import error points at what it is about.
-/

namespace InterfaceLang

/-- The files that a resolution of `root` may come to: `root` itself, and what the disk holds where
a directive of such a file leads. -/
inductive Imports.Meets (disk : Disk) (root : SourceUnit) : SourceUnit → Prop
  | root : Meets disk root root
  | imported {u : SourceUnit} {d : Directive} {text : String} : Meets disk root u →
      d ∈ u.directives → disk.read (u.path.target d.path) = .ok text →
      Meets disk root ⟨u.path.target d.path, (u.path.target d.path).text, text⟩

open Imports

/-- What a failure of resolving `root` can be, and what it points at: an error in the text of a file
that was met; the name in the second namespace declaration of such a file; a directive in such a
file that closes a cycle, that leads to nothing that can be read, or that leads to a file whose
namespace is taken; or the root as a whole, whose namespace is taken. -/
inductive Failure.Labelled (disk : Disk) (root : SourceUnit) : Failure → Prop
  | inText {u : SourceUnit} {e : SyntaxError} : Meets disk root u → e.Labelled u.source 0 →
      Labelled disk root (.ofSyntax e)
  | namespaces {u : SourceUnit} {f : SourceFile} {first second : NamespaceDecl}
      {more : List NamespaceDecl} {s : Spot} : Meets disk root u →
      Parser.parse u.source = .ok f → f.namespaces = first :: second :: more →
      s.source = u.source → s.span = second.name.span → s.Covers second.name.name.toList →
      Labelled disk root (.ofImport (.multipleNamespaces u.name s))
  | cycle {u : SourceUnit} {d : Directive} {cycle : List String} {s : Spot} : Meets disk root u →
      d ∈ u.directives → cycle.getLast? = some (u.path.target d.path).text →
      s.source = u.source → s.CoversDirective d →
      Labelled disk root (.ofImport (.circularImport cycle s))
  | missing {u : SourceUnit} {d : Directive} {cause : ReadFailure} {s : Spot} : Meets disk root u →
      d ∈ u.directives → disk.read (u.path.target d.path) = .error cause →
      s.source = u.source → s.CoversDirective d →
      Labelled disk root (.ofImport (.moduleNotFound d.path (u.path.target d.path).text
        (.reading cause) s))
  | clash {u : SourceUnit} {d : Directive} {ns first : String} {s : Spot} : Meets disk root u →
      d ∈ u.directives → s.source = u.source → s.CoversDirective d →
      Labelled disk root
        (.ofImport (.duplicateNamespace ns first (u.path.target d.path).text s))
  | rootClash {ns first : String} {s : Spot} : s.source = root.source → s.span = ⟨0, 0⟩ →
      s.Covers [] → Labelled disk root (.ofImport (.duplicateNamespace ns first root.path.text s))

/-- The root is not to be had, and there is no text to point into. -/
inductive Failure.AboutMissingRoot (name : String) : Failure → Prop
  | intro {resolved : String} {reason : LoadFailure} {s : Spot} : s.source = ⟨name, ""⟩ →
      s.span = ⟨0, 0⟩ → s.Covers [] →
      AboutMissingRoot name (.ofImport (.moduleNotFound name resolved reason s))

namespace Imports

variable {disk : Disk} {u v root : SourceUnit} {d : Directive} {f : Failure} {text : String}

/-- A file met below a file that is met is met. -/
theorem Meets.trans (h : Meets disk root u) (h' : Meets disk u v) : Meets disk root v := by
  induction h' with
  | root => exact h
  | imported _ hd hread ih => exact .imported ih hd hread

/-- The spot of a directive covers it where it stands. -/
theorem coversDirective_spotOf (h : d ∈ u.directives) : (u.spotOf d).CoversDirective d :=
  Spot.coversDirective h rfl rfl

/-! ## One file -/

/-- Only a second namespace declaration keeps a file from being lowered. -/
theorem second_of_toModel_error {file : SourceFile} {e : ImportError}
    (h : file.toModel text = .error e) :
    ∃ first second more, file.namespaces = first :: second :: more ∧
      e = .multipleNamespaces file.file ⟨⟨file.file, text⟩, second.name.span, second.pos⟩ := by
  unfold SourceFile.toModel SourceFile.namespaceDecl? at h
  match hnamespaces : file.namespaces with
  | [] =>
    rw [hnamespaces] at h
    cases h
  | [first] =>
    rw [hnamespaces] at h
    cases h
  | first :: second :: more =>
    rw [hnamespaces] at h
    cases h
    exact ⟨first, second, more, rfl, rfl⟩

/-- A file by itself fails with an error in its text or with too many namespaces. -/
theorem labelled_of_load_error {es : List Event} (h : u.load = (.error f, es)) :
    f.Labelled disk u := by
  unfold SourceUnit.load at h
  split at h
  · next e hmade =>
    cases h
    exact .inText .root (SyntaxError.labelled_of_ofSource hmade 0)
  · next p hmade =>
    split at h
    · next e hread =>
      cases h
      have hattempt : (p.after 0).readRest.1 = .error e := hread
      exact .inText .root (SyntaxError.labelled_of_attempt hmade hattempt)
    · next file hread =>
      have hparse : Parser.parse u.source = .ok file := by
        rw [Parser.parse, hmade]
        exact hread
      have hfile : file.file = u.name := by
        rw [Parser.file_of_readRest hread, (Parser.stands_of_ofSource hmade).1]
        rfl
      split at h
      · next e hmodel =>
        cases h
        obtain ⟨first, second, more, hnamespaces, rfl⟩ := second_of_toModel_error hmodel
        rw [hfile]
        have hsecond : second ∈ file.namespaces := by simp [hnamespaces]
        exact .namespaces .root hparse hnamespaces rfl rfl
          (Spot.covers_namespaceName hparse hsecond rfl rfl)
      · cases h

/-! ## Files and their imports -/

/-- A failure of an imported file stays labelled when it is handed on to the importing one. -/
theorem labelled_relocate {p : Path} (hd : d ∈ u.directives) (htarget : u.path.target d.path = p)
    (hread : disk.read p = .ok text) (h : f.Labelled disk ⟨p, p.text, text⟩) :
    (relocate u d p f).Labelled disk u := by
  have hmeets : ∀ {v}, Meets disk ⟨p, p.text, text⟩ v → Meets disk u v := by
    subst htarget
    exact (Meets.imported .root hd hread).trans
  have hclash : ∀ ns first, Failure.Labelled disk u
      (.ofImport (.duplicateNamespace ns first p.text (u.spotOf d))) := by
    subst htarget
    exact fun ns first => .clash .root hd rfl (coversDirective_spotOf hd)
  cases h with
  | inText hv he => exact .inText (hmeets hv) he
  | namespaces hv hparse hnamespaces hsource hspan hcovers =>
    exact .namespaces (hmeets hv) hparse hnamespaces hsource hspan hcovers
  | cycle hv hd' hlast hsource hcovers => exact .cycle (hmeets hv) hd' hlast hsource hcovers
  | missing hv hd' hcause hsource hcovers => exact .missing (hmeets hv) hd' hcause hsource hcovers
  | clash hv hd' hsource hcovers =>
    rw [relocate]
    split
    · next htext =>
      rw [htext]
      exact hclash _ _
    · exact .clash (hmeets hv) hd' hsource hcovers
  | rootClash hsource hspan hcovers =>
    rw [relocate, if_pos rfl]
    exact hclash _ _

/-- A namespace that is taken is reported for the file as a whole. -/
theorem labelled_of_claim_error {m : Model} {st : Progress}
    (h : (claim u m st).1 = .error f) : f.Labelled disk u := by
  unfold claim at h
  split at h
  · cases h
  · split at h
    · cases h
    · cases h
      exact .rootClash rfl rfl (Spot.covers_start rfl)

/-- Each failure is labelled in a file that the call meets, by induction along the calls. -/
theorem labelled_of_resolveFile (disk : Disk) :
    (∀ chain u st, ∀ f, (resolveFile disk chain u st).1 = .error f → f.Labelled disk u) ∧
      ∀ chain u imports m st, (∀ d ∈ imports, d ∈ u.directives) →
        ∀ f, (resolveImports disk chain u imports m st).1 = .error f → f.Labelled disk u := by
  refine resolve_induct disk _ _
    ?load_error ?load_ok ?nil ?on_chain ?included ?read_error ?read_ok
  -- a failure is made here or handed on; only one of an imported file is changed on its way
  case load_error =>
    intro chain u st e es hload f h
    rw [resolveFile_of_load_error hload] at h
    cases h
    exact labelled_of_load_error hload
  case load_ok =>
    intro chain u st m imports es hload ih f h
    rcases resolveFile_cases disk chain st hload with
      ⟨e, st', himports, hfile⟩ | ⟨m', st', _, hfile⟩ <;> rw [hfile] at h
    · rw [himports, (SourceUnit.load_eq_ok hload).1] at ih
      exact ih (fun d hd => hd) f h
    · exact labelled_of_claim_error h
  case nil =>
    intro chain u m st _ f h
    rw [resolveImports_nil] at h
    cases h
  case on_chain =>
    intro chain u d rest m st hchain hdirectives f h
    rw [resolveImports_of_onChain hchain] at h
    cases h
    have hd := hdirectives d List.mem_cons_self
    exact .cycle .root hd (by simp [cycleOf]) rfl (coversDirective_spotOf hd)
  case included =>
    intro chain u d rest m st hchain hinc ih hdirectives f h
    rw [resolveImports_of_included hchain hinc] at h
    exact ih (fun d hd => hdirectives d (List.mem_cons_of_mem _ hd)) f h
  case read_error =>
    intro chain u d rest m st cause hchain hinc hread hdirectives f h
    rw [resolveImports_of_read_error hchain hinc hread] at h
    cases h
    have hd := hdirectives d List.mem_cons_self
    exact .missing .root hd hread rfl (coversDirective_spotOf hd)
  case read_ok =>
    intro chain u d rest m st p text htarget hchain hinc hread ihfile ihrest hdirectives f h
    rcases resolveImports_cases m rest htarget hchain hinc hread with
      ⟨e, st', hfile, himports⟩ | ⟨sub, st', hfile, himports⟩ <;> rw [himports] at h
    · cases h
      rw [hfile] at ihfile
      exact labelled_relocate (hdirectives d List.mem_cons_self) htarget hread (ihfile e rfl)
    · exact ihrest sub st' hfile (fun d hd => hdirectives d (List.mem_cons_of_mem _ hd)) f h

/-! ## Root files -/

section Root

variable {baseDir : Option Path} {name : String} {p : Path}

theorem aboutMissingRoot (name resolved : String) (reason : LoadFailure) :
    Failure.AboutMissingRoot name (.ofImport (rootNotFound name resolved reason)) :=
  .intro rfl rfl (Spot.covers_start rfl)

theorem aboutMissingRoot_of_locate {e : ImportError} (h : locate disk baseDir p = .error e) :
    Failure.AboutMissingRoot p.text (.ofImport e) := by
  unfold locate at h
  split at h
  · cases h
  split at h
  · cases h
  split at h
  · cases h
  · cases h
    exact aboutMissingRoot _ _ _

/-- A failure is about a root that is not there, or labelled below the located root. -/
theorem labelled_of_resolve (h : (resolve disk baseDir name text).1 = .error f) :
    f.AboutMissingRoot name ∨
      ∃ path, locate disk baseDir ⟨name⟩ = .ok path ∧ f.Labelled disk ⟨path, name, text⟩ := by
  cases hpath : locate disk baseDir ⟨name⟩ with
  | error e =>
    rw [resolve, hpath] at h
    cases h
    exact .inl (aboutMissingRoot_of_locate hpath)
  | ok path =>
    exact .inr ⟨path, rfl,
      (labelled_of_resolveFile disk).1 _ _ _ f (resolveFile_of_resolve_error hpath h)⟩

theorem labelled_of_resolvePath (h : (resolvePath disk baseDir p).1 = .error f) :
    f.AboutMissingRoot p.text ∨
      ∃ path text, locate disk baseDir p = .ok path ∧ disk.read path = .ok text ∧
        f.Labelled disk ⟨path, p.text, text⟩ := by
  unfold resolvePath at h
  split at h
  · next e hpath =>
    cases h
    exact .inl (aboutMissingRoot_of_locate hpath)
  · next path hpath =>
    split at h
    · cases h
      exact .inl (aboutMissingRoot _ _ _)
    · next text hread =>
      rcases labelled_of_resolve h with hroot | ⟨path', hpath', hlabelled⟩
      · exact .inl hroot
      · rw [hpath] at hpath'
        cases hpath'
        exact .inr ⟨path, text, hpath, hread, hlabelled⟩

end Root

/-- Every syntax error and every import error carries a label that lies in the text it comes with,
on boundaries between characters, and covers what the error is about: errors of making a parser and
of each of its attempts, and errors of resolving a file under any chain, a root text, and a root
path. -/
theorem labels_of_failures :
    (∀ source e n, Parser.ofSource source = .error e → e.Labelled source n) ∧
    (∀ source p n e, Parser.ofSource source = .ok p → (p.after n).readRest.1 = .error e →
      e.Labelled source n) ∧
    (∀ disk chain u st f, (resolveFile disk chain u st).1 = .error f → f.Labelled disk u) ∧
    (∀ disk baseDir name text f, (resolve disk baseDir name text).1 = .error f →
      f.AboutMissingRoot name ∨
        ∃ path, locate disk baseDir ⟨name⟩ = .ok path ∧ f.Labelled disk ⟨path, name, text⟩) ∧
    (∀ disk baseDir p f, (resolvePath disk baseDir p).1 = .error f →
      f.AboutMissingRoot p.text ∨
        ∃ path text, locate disk baseDir p = .ok path ∧ disk.read path = .ok text ∧
          f.Labelled disk ⟨path, p.text, text⟩) ∧
    (∀ e : SyntaxError, e.label.span = e.spot.span) ∧
    ∀ e : ImportError, e.label.span = e.spot.span :=
  ⟨fun _ _ n h => SyntaxError.labelled_of_ofSource h n,
    fun _ _ _ _ hmade h => SyntaxError.labelled_of_attempt hmade h,
    fun disk chain u st f h => (labelled_of_resolveFile disk).1 chain u st f h,
    fun _ _ _ _ _ h => labelled_of_resolve h, fun _ _ _ _ h => labelled_of_resolvePath h,
    fun e => by cases e <;> rfl, fun e => by cases e <;> rfl⟩

/-- A text of one character that begins no token; a second attempt, which fails where the first one
did; a root that imports a file which imports itself, with the same directive in a comment before it
and another comment between the word and the path; and a root that does not exist. -/
theorem labels_of_failures_of_self_import :
    ∃ disk, disk = FileTree.toDisk
        ⟨[(["b"], .file "// import \"b\"\nimport // \u00e9\n \"b\"".toUTF8)], .present []⟩ ∧
      (∃ e, Parser.ofSource ⟨"", "\u00e9"⟩ = .error e ∧ e.Labelled ⟨"", "\u00e9"⟩ 0) ∧
      (∃ p e, Parser.ofSource ⟨"", "struct )"⟩ = .ok p ∧ (p.after 1).readRest.1 = .error e ∧
        e.Labelled ⟨"", "struct )"⟩ 1) ∧
      (∃ f, (resolveFile disk [⟨"/b"⟩] ⟨⟨"/a"⟩, "/a", "import \"b\""⟩ .start).1 = .error f ∧
        f.Labelled disk ⟨⟨"/a"⟩, "/a", "import \"b\""⟩) ∧
      (∃ spot, (resolve disk none "/a" "import \"b\"").1 =
          .error (.ofImport (.circularImport ["/b", "/b"] spot)) ∧ spot.span = ⟨14, 17⟩ ∧
        Failure.Labelled disk ⟨⟨"/a"⟩, "/a", "import \"b\""⟩
          (.ofImport (.circularImport ["/b", "/b"] spot))) ∧
      ∃ f, (resolvePath disk none ⟨"/c"⟩).1 = .error f ∧ f.AboutMissingRoot "/c" := by
  obtain ⟨disk, hdisk⟩ : ∃ disk, disk = FileTree.toDisk
    ⟨[(["b"], .file "// import \"b\"\nimport // \u00e9\n \"b\"".toUTF8)], .present []⟩ := ⟨_, rfl⟩
  have hload : (⟨⟨"/a"⟩, "/a", "import \"b\""⟩ : SourceUnit).load.1.toOption =
      some (⟨"/a", "", [], [], []⟩, [⟨"b", ⟨"/a", 1, 1, 0⟩, 10⟩]) := by
    decide +kernel
  obtain ⟨hmaking, hattempts, hfile, hresolve, hpath, _⟩ := labels_of_failures
  refine ⟨disk, hdisk, ?making, ?attempt, ?file, ?root, ?path⟩
  case making =>
    have hfind : (tokens "" "\u00e9").find? (·.kind = .unknown) =
        some ⟨.unknown, ['\u00e9'], ⟨"", 1, 1, 0⟩⟩ := by
      decide +kernel
    have herror : Parser.ofSource ⟨"", "\u00e9"⟩ = .error (Parser.invalidToken ⟨"", "\u00e9"⟩
        ⟨.unknown, ['\u00e9'], ⟨"", 1, 1, 0⟩⟩) := by
      rw [Parser.ofSource, hfind]
    exact ⟨_, herror, hmaking _ _ 0 herror⟩
  case attempt =>
    obtain ⟨p, hp⟩ : ∃ p, p = Parser.ofTokens ⟨"", "struct )"⟩
      (Parser.significant ⟨"", "struct )"⟩) := ⟨_, rfl⟩
    have hmade : Parser.ofSource ⟨"", "struct )"⟩ = .ok p :=
      hp ▸ Parser.ofSource_of_known (by decide +kernel)
    have herror : (p.after 1).readRest.1 = .error (.unexpectedToken (.punct .rparen) .element
        ⟨⟨"", "struct )"⟩, ⟨7, 1⟩, ⟨"", 1, 8, 7⟩⟩) := by
      rw [hp]
      decide +kernel
    exact ⟨p, _, hmade, herror, hattempts _ _ _ _ hmade herror⟩
  case file =>
    obtain ⟨f, st, herror⟩ : ∃ f st, resolveFile disk [⟨"/b"⟩] ⟨⟨"/a"⟩, "/a", "import \"b\""⟩
        .start = (.error f, st) :=
      ⟨_, Fails.resolveFile _ .start hload (.cycle (by decide +kernel))⟩
    have hfailed := congrArg Prod.fst herror
    exact ⟨f, hfailed, hfile _ _ _ _ f hfailed⟩
  case root =>
    have hread : disk.read ⟨"/b"⟩ = .ok "// import \"b\"\nimport // \u00e9\n \"b\"" := by
      rw [hdisk]
      decide +kernel
    have hsub : (⟨⟨"/b"⟩, "/b", "// import \"b\"\nimport // \u00e9\n \"b\""⟩ :
        SourceUnit).load.1.toOption =
        some (⟨"/b", "", [], [], []⟩, [⟨"b", ⟨"/b", 2, 1, 14⟩, 31⟩]) := by
      decide +kernel
    have hcycle : cycleOf [⟨"/a"⟩, ⟨"/b"⟩] ((⟨"/b"⟩ : Path).target "b") = ["/b", "/b"] := by
      decide +kernel
    have hlocate : locate disk none ⟨"/a"⟩ = .ok ⟨"/a"⟩ := rfl
    have herror := Fails.resolve hlocate hload
      (.within (by decide +kernel) (by decide +kernel) (by decide +kernel) hread hsub
        (.cycle (by decide +kernel)))
    rw [List.cons_append, List.nil_append, hcycle] at herror
    refine ⟨_, herror, rfl, ?_⟩
    rcases hresolve _ _ _ _ _ herror with hmissing | ⟨path, hpath, hlabelled⟩
    · cases hmissing
    · rw [hlocate] at hpath
      cases hpath
      exact hlabelled
  case path =>
    have hread : disk.read ⟨"/c"⟩ = .error .notFound := by
      rw [hdisk]
      decide +kernel
    have hlocate : locate disk none ⟨"/c"⟩ = .ok ⟨"/c"⟩ := rfl
    have herror : (resolvePath disk none ⟨"/c"⟩).1 =
        .error (.ofImport (rootNotFound "/c" "/c" (.reading .notFound))) := by
      unfold resolvePath
      rw [hlocate]
      simp only [hread]
    refine ⟨_, herror, ?_⟩
    rcases hpath _ _ _ _ herror with hmissing | ⟨path, text, hpath, hread', _⟩
    · exact hmissing
    · rw [hlocate] at hpath
      cases hpath
      rw [hread] at hread'
      cases hread'

end Imports

end InterfaceLang
