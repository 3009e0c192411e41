import InterfaceLang.Proofs.Validation.Cycles
import Mathlib.Data.Finset.Basic
import Mathlib.Data.Finset.Dedup

/-!
# The search through the struct graph, step by step

A search keeps the names on its path a second time, as a set, so that it can look them up. Here it
is carried out in single steps with both: the next name is passed over, closes a cycle or is
entered, or the innermost visit is left when it has followed all its references. Loops that have
been begun wait in a stack of open visits. Whatever steps have been taken, carrying out the rest by
recursion gives what the search gives, so the steps and the recursion find the same.

Each loop that has been begun has dealt with the references before the one it is at: they lead to
names that the search is finished with, or to names on the path, and then a cycle has been reported
that ends with the reference. So a visit that is left has dealt with all of them.

Results:
* `Consistent.step`: what a step keeps.
* `outcome_step`: a step does not change what the search comes to.
* `exists_return`: every visit is left at some time.
* `search_traversal`: what holds at every moment of a search and at its end.
-/

namespace InterfaceLang.Validation

/-! ## Steps -/

/-- A visit that has been begun. -/
structure Visit where
  name : String
  /-- The names that the surrounding loop has yet to visit. -/
  rest : List String

/-- A moment of a search. -/
structure Traversal where
  /-- The names that the innermost loop has yet to visit. -/
  pending : List String
  /-- The open visits, the innermost first. -/
  visits : List Visit
  path : List String
  onStack : Finset String
  found : Search
  /-- The names whose references have been listed to be followed, in the order of time. -/
  expanded : List String

/-- The part of a path from the first `name` on, closed by `name`; all of the path if it is not
there. -/
def cutAt (path : List String) (name : String) : List String :=
  path.drop ((path.findIdx? (· = name)).getD 0) ++ [name]

namespace Traversal

/-- A search that is to visit all structs of a model. -/
def start (m : Model) : Traversal :=
  ⟨structNames m, [], [], ∅, .start, []⟩

/-- Visits `name`; the loop goes on with `rest`. -/
def visit (m : Model) (t : Traversal) (name : String) (rest : List String) : Traversal :=
  match m.findStruct? name with
  | none => { t with pending := rest }
  | some s =>
    if name ∈ t.onStack then
      { t with
        pending := rest
        found := t.found.report ⟨name, cutAt t.path name, s.pos⟩ }
    else if name ∈ t.found.visited then { t with pending := rest }
    else
      { t with
        pending := s.required
        visits := ⟨name, rest⟩ :: t.visits
        path := t.path ++ [name]
        onStack := insert name t.onStack
        expanded := t.expanded ++ [name] }

/-- Leaves the innermost visit. -/
def leave (t : Traversal) (v : Visit) (outer : List Visit) : Traversal :=
  { t with
    pending := v.rest
    visits := outer
    path := t.path.dropLast
    onStack := t.onStack.erase v.name
    found := t.found.finish v.name }

/-- The next moment, unless the search is over. -/
def next? (m : Model) (t : Traversal) : Option Traversal :=
  match t.pending with
  | name :: rest => some (t.visit m name rest)
  | [] =>
    match t.visits with
    | v :: outer => some (t.leave v outer)
    | [] => none

/-- What a step does. -/
inductive Step (m : Model) (t : Traversal) : Traversal → Prop
  /-- The name is not that of a struct. -/
  | skip {name : String} {rest : List String} (hpending : t.pending = name :: rest)
      (hnone : m.findStruct? name = none) : Step m t { t with pending := rest }
  /-- The search is finished with the name. -/
  | pass {name : String} {rest : List String} {s : Struct} (hpending : t.pending = name :: rest)
      (hs : m.findStruct? name = some s) (hstack : name ∉ t.onStack)
      (hvisited : name ∈ t.found.visited) : Step m t { t with pending := rest }
  /-- The name is on the path. -/
  | close {name : String} {rest : List String} {s : Struct} (hpending : t.pending = name :: rest)
      (hs : m.findStruct? name = some s) (hstack : name ∈ t.onStack) :
      Step m t
        { t with
          pending := rest
          found := t.found.report ⟨name, cutAt t.path name, s.pos⟩ }
  /-- The name is met for the first time. -/
  | enter {name : String} {rest : List String} {s : Struct} (hpending : t.pending = name :: rest)
      (hs : m.findStruct? name = some s) (hstack : name ∉ t.onStack)
      (hvisited : name ∉ t.found.visited) :
      Step m t
        { t with
          pending := s.required
          visits := ⟨name, rest⟩ :: t.visits
          path := t.path ++ [name]
          onStack := insert name t.onStack
          expanded := t.expanded ++ [name] }
  /-- All references of the innermost visit have been followed. -/
  | leave {v : Visit} {outer : List Visit} (hpending : t.pending = [])
      (hvisits : t.visits = v :: outer) : Step m t (t.leave v outer)

variable {m : Model} {t t' : Traversal}

theorem step_of_next? (h : t.next? m = some t') : Step m t t' := by
  unfold next? at h
  split at h
  · next name rest hpending =>
    cases h
    unfold visit
    split
    · next hnone => exact .skip hpending hnone
    · next s hs =>
      by_cases hstack : name ∈ t.onStack
      · rw [if_pos hstack]
        exact .close hpending hs hstack
      · rw [if_neg hstack]
        by_cases hvisited : name ∈ t.found.visited
        · rw [if_pos hvisited]
          exact .pass hpending hs hstack hvisited
        · rw [if_neg hvisited]
          exact .enter hpending hs hstack hvisited
  · next hpending =>
    split at h
    · next v outer hvisits =>
      cases h
      exact .leave hpending hvisits
    · cases h

/-- A search comes from one moment to another. -/
def Reaches (m : Model) : Traversal → Traversal → Prop :=
  Relation.ReflTransGen fun t t' => t.next? m = some t'

end Traversal

/-! ## Loops -/

/-- The search has dealt with a reference from `u` to `v`: it is finished with `v`, or a cycle that
ends with this reference has been reported. -/
def Search.Dealt (found : Search) (u v : String) : Prop :=
  v ∈ found.visited ∨ found.Reports u v

/-- The innermost loop has dealt with `name`. The outermost loop closes no cycles. -/
def DealtWith (found : Search) (name : String) : List Visit → Prop
  | [] => name ∈ found.visited
  | u :: _ => found.Dealt u.name name

/-- Each loop that has been begun has dealt with the names before the one it is at. The innermost
one is at the first name of `pending`, and every other one at the name of the visit inside it. -/
def Loops (m : Model) (found : Search) (pending : List String) : List Visit → Prop
  | [] => ∃ done, structNames m = done ++ pending ∧ ∀ v ∈ done, v ∈ found.visited
  | u :: outer =>
    (∃ s done, m.findStruct? u.name = some s ∧ s.required = done ++ pending ∧
      ∀ v ∈ done, v ∈ structNames m → found.Dealt u.name v) ∧
    Loops m found (u.name :: u.rest) outer

section Loops

variable {m : Model} {found found' : Search} {name u v : String} {pending rest : List String}
  {visits outer : List Visit}

theorem Search.Dealt.mono (h : found.Dealt u v) (hvisited : found.visited ⊆ found'.visited)
    (hback : found.backEdges ⊆ found'.backEdges) : found'.Dealt u v :=
  h.imp (fun hv => hvisited hv) fun hreports => hreports.mono hback

theorem dealtWith_of_visited (h : name ∈ found.visited) : DealtWith found name visits := by
  cases visits with
  | nil => exact h
  | cons u outer => exact .inl h

namespace Loops

theorem mono (h : Loops m found pending visits) (hvisited : found.visited ⊆ found'.visited)
    (hback : found.backEdges ⊆ found'.backEdges) : Loops m found' pending visits := by
  induction visits generalizing pending with
  | nil =>
    obtain ⟨done, hsplit, hdone⟩ := h
    exact ⟨done, hsplit, fun v hv => hvisited (hdone v hv)⟩
  | cons u outer ih =>
    obtain ⟨⟨s, done, hs, hsplit, hdone⟩, houter⟩ := h
    exact ⟨⟨s, done, hs, hsplit, fun v hv hstruct => (hdone v hv hstruct).mono hvisited hback⟩,
      ih houter⟩

/-- The innermost loop goes on when it has dealt with a name. -/
theorem advance (h : Loops m found (name :: rest) visits)
    (hname : name ∈ structNames m → DealtWith found name visits) :
    Loops m found rest visits := by
  cases visits with
  | nil =>
    obtain ⟨done, hsplit, hdone⟩ := h
    have hstruct : name ∈ structNames m := by
      rw [hsplit]
      exact List.mem_append_right _ List.mem_cons_self
    refine ⟨done ++ [name], by simpa using hsplit, ?_⟩
    exact List.forall_mem_append.2 ⟨hdone, List.forall_mem_singleton.2 (hname hstruct)⟩
  | cons u outer =>
    obtain ⟨⟨s, done, hs, hsplit, hdone⟩, houter⟩ := h
    refine ⟨⟨s, done ++ [name], hs, by simpa using hsplit, ?_⟩, houter⟩
    exact List.forall_mem_append.2 ⟨hdone, List.forall_mem_singleton.2 hname⟩

theorem enter {s : Struct} (h : Loops m found (name :: rest) visits)
    (hs : m.findStruct? name = some s) :
    Loops m found s.required (⟨name, rest⟩ :: visits) :=
  ⟨⟨s, [], hs, rfl, by simp⟩, h⟩

/-- A struct that is met inside a visit is one that the visited struct requires. -/
theorem edge {u : Visit} (h : Loops m found (name :: rest) (u :: outer))
    (hname : name ∈ structNames m) : m.StructEdge u.name name := by
  obtain ⟨⟨s, done, hs, hsplit, _⟩, _⟩ := h
  have hreq : name ∈ s.required := by
    rw [hsplit]
    exact List.mem_append_right _ List.mem_cons_self
  exact ⟨⟨s, hs, Struct.mem_required_iff.1 hreq⟩, hname⟩

/-- A loop that is through has dealt with all references. -/
theorem dealt {u : Visit} (h : Loops m found [] (u :: outer)) {v : String}
    (hedge : m.StructEdge u.name v) : found.Dealt u.name v := by
  obtain ⟨⟨s, done, hs, hsplit, hdone⟩, _⟩ := h
  obtain ⟨⟨s', hs', hreq⟩, hstruct⟩ := hedge
  rw [hs] at hs'
  cases hs'
  rw [List.append_nil] at hsplit
  exact hdone v (hsplit ▸ Struct.mem_required_iff.2 hreq) hstruct

/-- When the innermost visit is left, the loop around it goes on. -/
theorem leave {u : Visit} (h : Loops m found pending (u :: outer)) :
    Loops m (found.finish u.name) u.rest outer := by
  have houter : Loops m (found.finish u.name) (u.name :: u.rest) outer :=
    h.2.mono (List.subset_append_left _ _) (List.Subset.refl _)
  exact houter.advance fun _ =>
    dealtWith_of_visited (List.mem_append_right _ List.mem_cons_self)

end Loops

end Loops

/-! ## What holds at every moment -/

theorem cutAt_eq_closing {path : List String} {name : String} (h : name ∈ path) :
    cutAt path name = closing path name := by
  have hsome : path.findIdx? (· = name) = some (path.findIdx (· = name)) := by
    rw [List.findIdx?_eq_some_iff_findIdx_eq]
    exact ⟨List.findIdx_lt_length_of_exists ⟨name, h, by simp⟩, rfl⟩
  rw [cutAt, hsome, Option.getD_some, closing, List.dropWhile_eq_drop_findIdx_not]
  simp

namespace Traversal

/-- The set holds the names on the path, and the path is a chain of references without repetition.
The search is finished with no name on it. Of a name that it is finished with, every reference to a
struct leads to another such name, or a cycle has been reported that ends with it. -/
structure Sound (m : Model) (t : Traversal) : Prop where
  onStack : t.onStack = t.path.toFinset
  distinct : t.path.Nodup
  walk : t.path.IsChain m.StructEdge
  disjoint : ∀ name ∈ t.found.visited, name ∉ t.onStack
  dealt : ∀ u ∈ t.found.visited, ∀ v, m.StructEdge u v → t.found.Dealt u v

/-- What else the steps keep: the open visits are those of the names on the path, and the names that
have been expanded, each once, are those on the path and those that the search is finished with. -/
structure Consistent (m : Model) (t : Traversal) : Prop extends Sound m t where
  path : t.path = (t.visits.map (·.name)).reverse
  loops : Loops m t.found t.pending t.visits
  expanded : ∀ name, name ∈ t.expanded ↔ name ∈ t.path ∨ name ∈ t.found.visited
  once : t.expanded.Nodup
  structs : ∀ name ∈ t.expanded, name ∈ structNames m

variable {m : Model} {t t' : Traversal} {name : String} {rest : List String}

theorem consistent_start (m : Model) : (start m).Consistent m where
  onStack := rfl
  distinct := .nil
  walk := .nil
  disjoint := by simp [start, Search.start]
  dealt := by simp [start, Search.start]
  path := rfl
  loops := ⟨[], rfl, by simp⟩
  expanded := by simp [start, Search.start]
  once := .nil
  structs := by simp [start]

namespace Consistent

theorem mem_onStack (h : t.Consistent m) : name ∈ t.onStack ↔ name ∈ t.path := by
  rw [h.onStack, List.mem_toFinset]

/-- The innermost loop goes on to the next name. -/
theorem goOn {found : Search} (h : t.Consistent m) (hpending : t.pending = name :: rest)
    (hvisited : found.visited = t.found.visited) (hback : t.found.backEdges ⊆ found.backEdges)
    (hdealt : name ∈ structNames m → DealtWith found name t.visits) :
    Consistent m { t with pending := rest, found := found } where
  onStack := h.onStack
  distinct := h.distinct
  walk := h.walk
  disjoint := by
    rw [hvisited]
    exact h.disjoint
  dealt := by
    rw [hvisited]
    exact fun u hu v hedge => (h.dealt u hu v hedge).mono (by rw [hvisited]; simp) hback
  path := h.path
  loops := by
    have hloops := h.loops
    rw [hpending] at hloops
    exact (hloops.mono (by rw [hvisited]; simp) hback).advance hdealt
  expanded := by
    rw [hvisited]
    exact h.expanded
  once := h.once
  structs := h.structs

/-- A name on the path closes a cycle that ends with the reference to it. -/
theorem dealtWith_of_onStack {pos : Position} (h : t.Consistent m) (hstack : name ∈ t.onStack) :
    DealtWith (t.found.report ⟨name, cutAt t.path name, pos⟩) name t.visits := by
  have hmem := h.mem_onStack.1 hstack
  have hpath := h.path
  rw [cutAt_eq_closing hmem]
  cases hvisits : t.visits with
  | nil =>
    rw [hvisits] at hpath
    rw [hpath] at hmem
    cases hmem
  | cons u outer =>
    have hlast : t.path.getLast? = some u.name := by
      rw [hpath, hvisits, List.getLast?_reverse]
      rfl
    exact .inr ⟨_, List.mem_append_right _ List.mem_cons_self, suffix_closing hlast hmem⟩

theorem enter {s : Struct} (h : t.Consistent m) (hpending : t.pending = name :: rest)
    (hs : m.findStruct? name = some s) (hstack : name ∉ t.onStack)
    (hvisited : name ∉ t.found.visited) :
    Consistent m
      { t with
        pending := s.required
        visits := ⟨name, rest⟩ :: t.visits
        path := t.path ++ [name]
        onStack := insert name t.onStack
        expanded := t.expanded ++ [name] } where
  onStack := by
    ext u
    rw [Finset.mem_insert, h.mem_onStack, List.mem_toFinset, List.mem_append, List.mem_singleton,
      or_comm]
  distinct := by
    have hnot := mt h.mem_onStack.2 hstack
    simpa [List.nodup_append] using ⟨h.distinct, fun u hu heq => hnot (heq ▸ hu)⟩
  walk := by
    have hloops := h.loops
    have hpath := h.path
    rw [hpending] at hloops
    refine Walk.isChain_concat h.walk fun u hu => ?_
    cases hvisits : t.visits with
    | nil =>
      rw [hpath, hvisits] at hu
      cases hu
    | cons v outer =>
      rw [hpath, hvisits, List.getLast?_reverse] at hu
      cases hu
      rw [hvisits] at hloops
      exact hloops.edge (mem_structNames_of_findStruct? hs)
  disjoint := by
    intro u hu hmem
    rcases Finset.mem_insert.1 hmem with rfl | hmem
    · exact hvisited hu
    · exact h.disjoint u hu hmem
  dealt := h.dealt
  path := by
    rw [h.path]
    simp
  loops := by
    have hloops := h.loops
    rw [hpending] at hloops
    exact hloops.enter hs
  expanded := by
    intro u
    simp only [List.mem_append, h.expanded]
    tauto
  once := by
    have hnew : name ∉ t.expanded := by
      rw [h.expanded, ← h.mem_onStack]
      exact not_or.2 ⟨hstack, hvisited⟩
    simpa [List.nodup_append] using ⟨h.once, fun u hu heq => hnew (heq ▸ hu)⟩
  structs := List.forall_mem_append.2
    ⟨h.structs, List.forall_mem_singleton.2 (mem_structNames_of_findStruct? hs)⟩

theorem leave {v : Visit} {outer : List Visit} (h : t.Consistent m) (hpending : t.pending = [])
    (hvisits : t.visits = v :: outer) : (t.leave v outer).Consistent m := by
  have hloops := h.loops
  rw [hpending, hvisits] at hloops
  have hpath : t.path = (outer.map (·.name)).reverse ++ [v.name] := by
    rw [h.path, hvisits]
    simp
  have hdrop : t.path.dropLast = (outer.map (·.name)).reverse := by
    rw [hpath, List.dropLast_concat]
  have hmem : ∀ u, u ∈ t.path ↔ u ∈ t.path.dropLast ∨ u = v.name := by
    intro u
    rw [hdrop, hpath, List.mem_append, List.mem_singleton]
  have hnot : v.name ∉ t.path.dropLast := by
    have hdistinct := h.distinct
    rw [hpath] at hdistinct
    rw [hdrop]
    exact fun hv => (List.nodup_append.1 hdistinct).2.2 _ hv _ List.mem_cons_self rfl
  have hstack : ∀ u, u ∈ t.onStack.erase v.name ↔ u ∈ t.path.dropLast := by
    intro u
    rw [Finset.mem_erase, h.mem_onStack, hmem]
    constructor
    · rintro ⟨hne, hu⟩
      exact hu.resolve_right hne
    · exact fun hu => ⟨fun heq => hnot (heq ▸ hu), .inl hu⟩
  refine ⟨⟨?onStack, ?distinct, ?walk, ?disjoint, ?dealt⟩, hdrop, hloops.leave, ?expanded, h.once,
    h.structs⟩
  case onStack =>
    ext u
    rw [List.mem_toFinset]
    exact hstack u
  case distinct =>
    exact h.distinct.sublist (List.dropLast_sublist _)
  case walk =>
    exact h.walk.prefix (List.dropLast_prefix _)
  case disjoint =>
    intro u hu hmem'
    rcases List.mem_append.1 hu with hu | hu
    · exact h.disjoint u hu (Finset.mem_of_mem_erase hmem')
    · rw [List.mem_singleton.1 hu] at hmem'
      exact Finset.notMem_erase _ _ hmem'
  case dealt =>
    intro u hu w hedge
    have hdealt : t.found.Dealt u w := by
      rcases List.mem_append.1 hu with hu | hu
      · exact h.dealt u hu w hedge
      · rw [List.mem_singleton.1 hu] at hedge ⊢
        exact hloops.dealt hedge
    exact hdealt.mono (List.subset_append_left _ _) (List.Subset.refl _)
  case expanded =>
    intro u
    show u ∈ t.expanded ↔ u ∈ t.path.dropLast ∨ u ∈ t.found.visited ++ [v.name]
    rw [h.expanded, hmem, List.mem_append, List.mem_singleton]
    tauto

/-- A step keeps what holds at every moment. -/
theorem step (h : t.Consistent m) (hstep : Step m t t') : t'.Consistent m := by
  cases hstep with
  | skip hpending hnone =>
    refine h.goOn hpending rfl (List.Subset.refl _) fun hstruct => ?_
    obtain ⟨s, hs⟩ := mem_structNames_iff.1 hstruct
    rw [hnone] at hs
    cases hs
  | pass hpending _ _ hvisited =>
    exact h.goOn hpending rfl (List.Subset.refl _) fun _ => dealtWith_of_visited hvisited
  | close hpending hs hstack =>
    exact h.goOn hpending rfl (List.subset_append_left _ _) fun _ => h.dealtWith_of_onStack hstack
  | enter hpending hs hstack hvisited => exact h.enter hpending hs hstack hvisited
  | leave hpending hvisits => exact h.leave hpending hvisits

theorem reaches (h : t.Consistent m) (hreaches : Reaches m t t') : t'.Consistent m := by
  induction hreaches with
  | refl => exact h
  | tail _ hnext ih => exact ih.step (step_of_next? hnext)

end Consistent

/-! ## What a search comes to -/

end Traversal

/-- What a search finds if it is carried on by recursion from inside the given visits. -/
def carryOn (m : Model) (path pending : List String) (found : Search) : List Visit → Search
  | [] => visitAll m path pending found
  | v :: outer =>
    carryOn m path.dropLast v.rest ((visitAll m path pending found).finish v.name) outer

theorem carryOn_cons (m : Model) (path : List String) (name : String) (rest : List String)
    (found : Search) (visits : List Visit) :
    carryOn m path (name :: rest) found visits =
      carryOn m path rest (Validation.visit m path name found) visits := by
  cases visits <;> rw [carryOn, carryOn, visitAll]

namespace Traversal

variable {m : Model} {t t' : Traversal} {name : String} {rest : List String}

/-- What a search finds if it is carried on by recursion from a moment on. -/
def outcome (m : Model) (t : Traversal) : Search :=
  carryOn m t.path t.pending t.found t.visits

/-- A step does not change what the search comes to. -/
theorem outcome_step (h : t.Consistent m) (hstep : Step m t t') : t'.outcome m = t.outcome m := by
  cases hstep with
  | skip hpending hnone =>
    rw [outcome, outcome, hpending, carryOn_cons, visit_of_none hnone]
  | pass hpending hs hstack hvisited =>
    rw [outcome, outcome, hpending, carryOn_cons, visit_of_some hs,
      if_neg (mt h.mem_onStack.2 hstack), if_pos hvisited]
  | close hpending hs hstack =>
    have hmem := h.mem_onStack.1 hstack
    rw [outcome, outcome, hpending, carryOn_cons, visit_of_some hs, if_pos hmem,
      cutAt_eq_closing hmem]
  | enter hpending hs hstack hvisited =>
    rw [outcome, outcome, hpending, carryOn_cons, visit_of_some hs,
      if_neg (mt h.mem_onStack.2 hstack), if_neg hvisited, carryOn, List.dropLast_concat]
  | leave hpending hvisits =>
    rw [outcome, outcome, hpending, hvisits, carryOn, visitAll]
    rfl

theorem outcome_reaches (h : t.Consistent m) (hreaches : Reaches m t t') :
    t'.outcome m = t.outcome m := by
  induction hreaches with
  | refl => rfl
  | tail hbefore hnext ih => rw [outcome_step (h.reaches hbefore) (step_of_next? hnext), ih]

/-! ## Visits end -/

theorem next?_eq_none_iff : t.next? m = none ↔ t.pending = [] ∧ t.visits = [] := by
  unfold next?
  cases t.pending <;> cases t.visits <;> simp

/-- The number of names that the loops have yet to visit, and of open visits. -/
def work (t : Traversal) : Nat :=
  (t.pending ++ t.visits.flatMap fun v => v.name :: v.rest).length

/-- Entering a name leaves fewer names that have not been expanded, every other step less work. -/
theorem step_decreases (h : t.Consistent m) (hstep : Step m t t') :
    Prod.Lex (· < ·) (· < ·) (Walk.fresh (structNames m) t'.expanded, t'.work)
      (Walk.fresh (structNames m) t.expanded, t.work) := by
  cases hstep with
  | skip hpending _ =>
    refine .right _ ?_
    simp [work, hpending]
  | pass hpending _ _ _ =>
    refine .right _ ?_
    simp [work, hpending]
  | close hpending _ _ =>
    refine .right _ ?_
    simp [work, hpending]
  | enter hpending hs hstack hvisited =>
    refine .left _ _ (Walk.fresh_concat_lt (mem_structNames_of_findStruct? hs) ?_)
    rw [h.expanded, ← h.mem_onStack]
    exact not_or.2 ⟨hstack, hvisited⟩
  | leave hpending hvisits =>
    refine .right _ ?_
    simp [work, Traversal.leave, hpending, hvisits]

/-- A step leaves an open visit or stays inside it. -/
theorem visits_step {inner outer : List Visit} {v : Visit} (hstep : Step m t t')
    (hvisits : t.visits = inner ++ v :: outer) :
    (t'.visits = outer ∧ t'.pending = v.rest) ∨ ∃ inner', t'.visits = inner' ++ v :: outer := by
  cases hstep with
  | skip => exact .inr ⟨inner, hvisits⟩
  | pass => exact .inr ⟨inner, hvisits⟩
  | close => exact .inr ⟨inner, hvisits⟩
  | enter => exact .inr ⟨_ :: inner, congrArg (List.cons _) hvisits⟩
  | leave _ hleft =>
    rw [hleft] at hvisits
    cases inner with
    | nil =>
      obtain ⟨rfl, rfl⟩ := List.cons.inj hvisits
      exact .inl ⟨rfl, rfl⟩
    | cons u inner => exact .inr ⟨inner, (List.cons.inj hvisits).2⟩

/-- Every visit is left at some time. -/
theorem exists_return {t : Traversal} (h : t.Consistent m) {inner outer : List Visit} {v : Visit}
    (hvisits : t.visits = inner ++ v :: outer) :
    ∃ t', Reaches m t t' ∧ t'.visits = outer ∧ t'.pending = v.rest := by
  obtain ⟨t₁, hnext⟩ : ∃ t₁, t.next? m = some t₁ := by
    refine Option.ne_none_iff_exists'.1 fun hnone => ?_
    rw [(next?_eq_none_iff.1 hnone).2] at hvisits
    simp at hvisits
  have hstep := step_of_next? hnext
  rcases visits_step hstep hvisits with ⟨hleft, hpending⟩ | ⟨inner', hinside⟩
  · exact ⟨t₁, .single hnext, hleft, hpending⟩
  · obtain ⟨t', hreaches, hleft⟩ := exists_return (h.step hstep) hinside
    exact ⟨t', .head hnext hreaches, hleft⟩
termination_by (Walk.fresh (structNames m) t.expanded, t.work)
decreasing_by exact step_decreases h hstep

/-- At a name, a step deals with it or begins to visit it. -/
theorem step_at (hstep : Step m t t') (hpending : t.pending = name :: rest) :
    (t'.pending = rest ∧ t'.visits = t.visits) ∨ t'.visits = ⟨name, rest⟩ :: t.visits := by
  cases hstep with
  | skip hat _ =>
    cases hat.symm.trans hpending
    exact .inl ⟨rfl, rfl⟩
  | pass hat _ _ _ =>
    cases hat.symm.trans hpending
    exact .inl ⟨rfl, rfl⟩
  | close hat _ _ =>
    cases hat.symm.trans hpending
    exact .inl ⟨rfl, rfl⟩
  | enter hat _ _ _ =>
    cases hat.symm.trans hpending
    exact .inr rfl
  | leave hat _ => cases hat.symm.trans hpending

/-- The outermost loop comes to each of its names, and to its end. -/
theorem exists_between {done rest : List String} (hsplit : structNames m = done ++ rest) :
    ∃ t, Reaches m (start m) t ∧ t.pending = rest ∧ t.visits = [] := by
  induction done using List.reverseRecOn generalizing rest with
  | nil => exact ⟨start m, .refl, hsplit, rfl⟩
  | append_singleton done name ih =>
    obtain ⟨t, hreaches, hpending, hvisits⟩ := @ih (name :: rest) (by simpa using hsplit)
    obtain ⟨t₁, hnext⟩ : ∃ t₁, t.next? m = some t₁ := by
      refine Option.ne_none_iff_exists'.1 fun hnone => ?_
      rw [(next?_eq_none_iff.1 hnone).1] at hpending
      cases hpending
    have hreaches₁ := hreaches.tail hnext
    rcases step_at (step_of_next? hnext) hpending with ⟨hdone, hsame⟩ | hbegun
    · exact ⟨t₁, hreaches₁, hdone, hsame.trans hvisits⟩
    · have hopen : t₁.visits = [] ++ ⟨name, rest⟩ :: t.visits := hbegun
      obtain ⟨t', hreturn, hleft, hrest⟩ :=
        exists_return ((consistent_start m).reaches hreaches₁) hopen
      exact ⟨t', hreaches₁.trans hreturn, hrest, hleft.trans hvisits⟩

end Traversal

open Traversal

/-- At every moment of a search set and path agree, the path is a chain of references without
repetition, no name on it is finished with, and the references of finished names have been dealt
with. Between two visits of the outermost loop, which comes to each of its names, path and set are
empty. The search ends, it has then found what the recursion finds, and the references of each name
of a struct have been listed to be followed exactly once. -/
theorem search_traversal (m : Model) :
    (∀ t, Reaches m (start m) t → t.Sound m) ∧
    (∀ t, Reaches m (start m) t → t.visits = [] → t.path = [] ∧ t.onStack = ∅) ∧
    (∀ done rest, structNames m = done ++ rest →
      ∃ t, Reaches m (start m) t ∧ t.pending = rest ∧ t.visits = []) ∧
    ∃ last, Reaches m (start m) last ∧ last.next? m = none ∧ last.found = search m ∧
      last.expanded.Perm (structNames m).dedup := by
  have hconsistent : ∀ t, Reaches m (start m) t → t.Consistent m :=
    fun t ht => (consistent_start m).reaches ht
  refine ⟨fun t ht => (hconsistent t ht).toSound, fun t ht hvisits => ?_,
    fun done rest hsplit => exists_between hsplit, ?_⟩
  · have h := hconsistent t ht
    have hpath : t.path = [] := by
      rw [h.path, hvisits]
      rfl
    exact ⟨hpath, by rw [h.onStack, hpath]; rfl⟩
  · obtain ⟨last, hreaches, hpending, hvisits⟩ :=
      exists_between (List.append_nil (structNames m)).symm
    have h := hconsistent last hreaches
    refine ⟨last, hreaches, next?_eq_none_iff.2 ⟨hpending, hvisits⟩, ?_, ?_⟩
    · have houtcome := outcome_reaches (consistent_start m) hreaches
      rwa [outcome, hpending, hvisits, carryOn, visitAll] at houtcome
    · refine (List.perm_ext_iff_of_nodup h.once (List.nodup_dedup _)).2 fun name => ?_
      rw [List.mem_dedup]
      refine ⟨h.structs name, fun hname => (h.expanded name).2 (.inr ?_)⟩
      have hloops := h.loops
      rw [hpending, hvisits] at hloops
      obtain ⟨done, hsplit, hdone⟩ := hloops
      rw [List.append_nil] at hsplit
      exact hdone name (hsplit ▸ hname)

end InterfaceLang.Validation
