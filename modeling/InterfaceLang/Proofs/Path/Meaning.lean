import InterfaceLang.Proofs.Path.NormalForm

/-!
# What a path means

Read from a directory, a path leads to a location: `.` stays, `..` goes to the parent directory, and
the parent of the root is the root. What a path means apart from where it is read from is its route:
how many directories it climbs above the start, and which names it goes down from there.

Normalising takes the names of the route and of its climbs only the parity, since a `..` that had
nothing to take away is taken away by the next one of its kind. An absolute path climbs nowhere, so
that its normal form denotes what it denotes, but there are two normal forms for each location. The
normal form of a relative path is the same for every spelling of its route, but it denotes something
else if the route climbs twice or more.

Results:
* `locationFrom_eq`: the location of a path is where its route leads.
* `components_normalize_eq_route`: the normal form is made of the names and the parity of the
  climbs.
* `Route.eq_of_locationFrom`: routes that lead to the same location from every start are equal.
* `normalize_canonical_iff`: when a normal form keeps the meaning of a path, and when it is the only
  one of its meaning.
-/

namespace InterfaceLang

/-- A file or directory, given by the names on the way to it from the root. -/
abbrev Location := List String

/-- The location that one component leads to. -/
def Component.follow (loc : Location) : Component → Location
  | root => []
  | here => loc
  | up => loc.dropLast
  | name s => loc ++ [s]

/-- The location that a path denotes when it is read from the directory `start`. -/
def Path.locationFrom (p : Path) (start : Location) : Location :=
  p.components.foldl Component.follow start

/-- What a path says apart from the directory it is read from. -/
structure Route where
  /-- The number of `..` that find no name before them. -/
  climbs : Nat
  /-- The names that no `..` takes away. -/
  names : List String

namespace Route

/-- The route that stays where it is. -/
def still : Route :=
  ⟨0, []⟩

/-- The route that goes on with a component; the root is a new start. -/
def step (r : Route) : Component → Route
  | .root => still
  | .here => r
  | .up =>
    if r.names = [] then { r with climbs := r.climbs + 1 }
    else { r with names := r.names.dropLast }
  | .name s => { r with names := r.names ++ [s] }

/-- The location that a route leads to: up from the start, at most to the root, and down again. -/
def locationFrom (r : Route) (start : Location) : Location :=
  start.take (start.length - r.climbs) ++ r.names

end Route

/-- The route of a path. -/
def Path.route (p : Path) : Route :=
  p.components.foldl Route.step .still

/-! ## Following a route -/

namespace Route

variable {r r' : Route} {c : Component} {cs : List Component}

theorem locationFrom_still (start : Location) : still.locationFrom start = start := by
  simp [still, locationFrom]

theorem follow_locationFrom (r : Route) (start : Location) (hc : c.IsPlain) :
    Component.follow (r.locationFrom start) c = (r.step c).locationFrom start := by
  cases c with
  | root => exact hc.elim
  | here => exact hc.elim
  | name s => simp [Component.follow, step, locationFrom]
  | up =>
    by_cases hnames : r.names = []
    · -- nothing to take away, so the way up goes on
      have hlength : min (min (start.length - r.climbs) start.length - 1)
          (start.length - r.climbs) = start.length - (r.climbs + 1) := by omega
      show (start.take (start.length - r.climbs) ++ r.names).dropLast = _
      rw [step, if_pos hnames, locationFrom, hnames, List.append_nil, List.append_nil,
        List.dropLast_eq_take, List.length_take, List.take_take, hlength]
    · simp [Component.follow, step, locationFrom, hnames, List.dropLast_append_of_ne_nil]

theorem foldl_follow (hcs : ∀ c ∈ cs, c.IsPlain) (r : Route) (start : Location) :
    cs.foldl Component.follow (r.locationFrom start) = (cs.foldl step r).locationFrom start := by
  induction cs generalizing r with
  | nil => rfl
  | cons c cs ih =>
    obtain ⟨hc, hcs⟩ := List.forall_mem_cons.1 hcs
    rw [List.foldl_cons, List.foldl_cons, follow_locationFrom r start hc, ih hcs]

theorem foldl_step_ups (r : Route) (hr : r.names = []) (k : Nat) :
    (List.replicate k Component.up).foldl step r = { r with climbs := r.climbs + k } := by
  induction k generalizing r with
  | zero => rfl
  | succ k ih =>
    rw [List.replicate_succ, List.foldl_cons, step, if_pos hr]
    have hmore := ih { r with climbs := r.climbs + 1 } hr
    rw [hmore, Nat.add_assoc, Nat.add_comm 1 k]

theorem foldl_step_names (r : Route) (names : List String) :
    (names.map Component.name).foldl step r = { r with names := r.names ++ names } := by
  induction names generalizing r with
  | nil => simp
  | cons s names ih =>
    rw [List.map_cons, List.foldl_cons, ih]
    simp [step]

/-- Routes that lead to the same location from every start are equal. -/
theorem eq_of_locationFrom (h : ∀ start, r.locationFrom start = r'.locationFrom start) :
    r = r' := by
  have hnames : r.names = r'.names := by simpa [locationFrom] using h []
  -- a start that is deep enough for both shows how far each of them climbs
  have hlength := congrArg List.length (h (List.replicate (r.climbs + r'.climbs) ""))
  simp only [locationFrom, hnames, List.length_append, List.length_take,
    List.length_replicate] at hlength
  obtain ⟨climbs, names⟩ := r
  obtain ⟨climbs', names'⟩ := r'
  simp only at hnames hlength
  simp only [Route.mk.injEq]
  exact ⟨by omega, hnames⟩

end Route

/-! ## Routes of paths -/

namespace Path

variable {p q : Path}

/-- Reading a path is reading its root, if it has one, and then plain components; a leading `.` says
nothing. -/
theorem exists_foldl_components (p : Path) :
    ∃ rest : List Component, (∀ c ∈ rest, c.IsPlain) ∧ p.route = rest.foldl Route.step .still ∧
      ∀ {α : Type} (f : α → Component → α) (a : α), f a .here = a →
        p.components.foldl f a = rest.foldl f (if p.isAbsolute then f a .root else a) := by
  obtain ⟨lead, rest, hcomp, hlead, hrest⟩ := components_shape p
  have hfold : ∀ {α : Type} (f : α → Component → α) (a : α), f a .here = a →
      p.components.foldl f a = rest.foldl f (if p.isAbsolute then f a .root else a) := by
    intro α f a hhere
    simp only [List.mem_cons, List.not_mem_nil, or_false] at hlead
    rcases hlead with rfl | rfl | rfl
    · have hhead : rest.head? ≠ some .root := fun h => hrest _ (List.mem_of_mem_head? h)
      simp [isAbsolute, hcomp, hhead]
    · simp [isAbsolute, hcomp]
    · simp [isAbsolute, hcomp, hhere]
  refine ⟨rest, hrest, ?_, hfold⟩
  rw [route, hfold _ _ rfl]
  split <;> rfl

/-- The location of a path is where its route leads, from the root if the path is absolute. -/
theorem locationFrom_eq (p : Path) (start : Location) :
    p.locationFrom start = p.route.locationFrom (if p.isAbsolute then [] else start) := by
  obtain ⟨rest, hrest, hroute, hfold⟩ := exists_foldl_components p
  have hfollow := Route.foldl_follow hrest .still (if p.isAbsolute then [] else start)
  rw [Route.locationFrom_still] at hfollow
  rw [locationFrom, hfold _ _ rfl, hroute]
  exact hfollow

/-! ## Normal forms by routes -/

/-- The normal form of a route, the last component first and below it what it is read from. -/
def stackOf (base : List Component) (r : Route) : List Component :=
  (r.names.map Component.name).reverse ++ List.replicate (r.climbs % 2) .up ++ base

theorem push_stackOf {base : List Component} {c : Component} (hbase : base = [] ∨ base = [.root])
    (r : Route) (hc : c.IsPlain) : push (stackOf base r) c = stackOf base (r.step c) := by
  cases c with
  | root => exact hc.elim
  | here => exact hc.elim
  | name s => simp [push, stackOf, Route.step]
  | up =>
    obtain ⟨climbs, names⟩ := r
    rcases List.eq_nil_or_concat names with rfl | ⟨front, s, rfl⟩
    · -- only a `..` that found no name can be left to be taken away
      rcases Nat.mod_two_eq_zero_or_one climbs with heven | hodd
      · have hnext : (climbs + 1) % 2 = 1 := by omega
        rcases hbase with rfl | rfl <;> simp [push, stackOf, Route.step, heven, hnext]
      · have hnext : (climbs + 1) % 2 = 0 := by omega
        simp [push, stackOf, Route.step, hodd, hnext]
    · simp [push, stackOf, Route.step]

theorem foldl_push_stackOf {base cs : List Component} (hbase : base = [] ∨ base = [.root])
    (hcs : ∀ c ∈ cs, c.IsPlain) (r : Route) :
    cs.foldl push (stackOf base r) = stackOf base (cs.foldl Route.step r) := by
  induction cs generalizing r with
  | nil => rfl
  | cons c cs ih =>
    obtain ⟨hc, hcs⟩ := List.forall_mem_cons.1 hcs
    rw [List.foldl_cons, List.foldl_cons, push_stackOf hbase r hc, ih hcs]

/-- The component that a path begins with if it is absolute. -/
def origin (p : Path) : List Component :=
  if p.isAbsolute then [.root] else []

/-- A normal form is made of the origin of the path, at most one `..`, and the names of its
route. -/
theorem components_normalize_eq_route (p : Path) :
    p.normalize.components =
      p.origin ++ List.replicate (p.route.climbs % 2) .up ++ p.route.names.map .name := by
  obtain ⟨rest, hrest, hroute, hfold⟩ := exists_foldl_components p
  have hbase : p.origin = [] ∨ p.origin = [.root] := by
    unfold origin
    split <;> simp
  have hstack : p.components.foldl push [] = stackOf p.origin p.route := by
    have hpush := foldl_push_stackOf hbase hrest .still
    rw [← hroute] at hpush
    rw [hfold _ _ rfl]
    exact hpush
  have hreverse : p.origin.reverse = p.origin := by
    rcases hbase with h | h <;> rw [h] <;> rfl
  rw [components_normalize, reduce, hstack]
  simp [stackOf, hreverse]

theorem isAbsolute_normalize (p : Path) : p.normalize.isAbsolute = p.isAbsolute := by
  have hhead : (List.replicate (p.route.climbs % 2) Component.up ++
      p.route.names.map Component.name).head? ≠ some .root := by
    intro h
    have hmem := List.mem_of_mem_head? h
    simp at hmem
  rw [isAbsolute, components_normalize_eq_route, List.append_assoc, origin]
  cases p.isAbsolute with
  | true => simp
  | false => simpa using hhead

theorem route_normalize (p : Path) : p.normalize.route = ⟨p.route.climbs % 2, p.route.names⟩ := by
  have horigin : p.origin.foldl Route.step .still = .still := by
    unfold origin
    split <;> rfl
  rw [route, components_normalize_eq_route, List.foldl_append, List.foldl_append, horigin,
    Route.foldl_step_ups _ rfl, Route.foldl_step_names]
  simp [Route.still]

/-- A normal form denotes what its path denotes, exactly if the path is absolute or climbs at most
once. -/
theorem locationFrom_normalize_iff (p : Path) :
    (∀ start, p.normalize.locationFrom start = p.locationFrom start) ↔
      p.isAbsolute = true ∨ p.route.climbs ≤ 1 := by
  simp only [locationFrom_eq, isAbsolute_normalize, route_normalize]
  cases p.isAbsolute with
  | true => simp [Route.locationFrom]
  | false =>
    constructor
    · intro h
      have hroute := Route.eq_of_locationFrom h
      have hclimbs := congrArg Route.climbs hroute
      simp only at hclimbs
      omega
    · intro h start
      have hclimbs : p.route.climbs % 2 = p.route.climbs := by
        simp only [Bool.false_eq_true, false_or] at h
        omega
      rw [hclimbs]

theorem components_normalize_eq_iff (h : p.isAbsolute = q.isAbsolute)
    (hnames : p.route.names = q.route.names) :
    p.normalize.components = q.normalize.components ↔
      p.route.climbs % 2 = q.route.climbs % 2 := by
  have horigin : p.origin = q.origin := by rw [origin, origin, h]
  rw [components_normalize_eq_route, components_normalize_eq_route, hnames, horigin,
    List.append_left_inj, List.append_right_inj]
  simp [List.replicate_inj]

/-- Normalising keeps the meaning of every absolute path and of every relative path that climbs at
most once above its start, and of no other. Spellings of one location are told apart only where
absolute paths go above the root, once by an even and once by an odd number of `..`. -/
theorem normalize_canonical_iff (p q : Path) :
    ((∀ start, p.normalize.locationFrom start = p.locationFrom start) ↔
      p.isAbsolute = true ∨ p.route.climbs ≤ 1) ∧
    (p.isAbsolute = q.isAbsolute →
      (∀ start, p.locationFrom start = q.locationFrom start) →
      (p.normalize.components = q.normalize.components ↔
        (p.isAbsolute = true → p.route.climbs % 2 = q.route.climbs % 2))) := by
  refine ⟨locationFrom_normalize_iff p, fun habs hloc => ?_⟩
  simp only [locationFrom_eq, ← habs] at hloc
  cases hp : p.isAbsolute with
  | true =>
    have hnames : p.route.names = q.route.names := by
      simpa [hp, Route.locationFrom] using hloc []
    simpa [hp] using components_normalize_eq_iff habs hnames
  | false =>
    have hroute : p.route = q.route := Route.eq_of_locationFrom (by simpa [hp] using hloc)
    have heq := (components_normalize_eq_iff habs (by rw [hroute])).2 (by rw [hroute])
    simp [heq]

/-- Two ways to write one file, the first of which goes twice above the root. -/
theorem normalize_canonical_of_two_ups :
    (∀ start, (⟨"/x/../../../y"⟩ : Path).locationFrom start = (⟨"/y"⟩ : Path).locationFrom start) ∧
      (⟨"/x/../../../y"⟩ : Path).normalize.components = (⟨"/y"⟩ : Path).normalize.components := by
  have hloc : ∀ start, (⟨"/x/../../../y"⟩ : Path).locationFrom start =
      (⟨"/y"⟩ : Path).locationFrom start := fun _ => rfl
  exact ⟨hloc, ((normalize_canonical_iff ⟨"/x/../../../y"⟩ ⟨"/y"⟩).2 rfl hloc).2 fun _ => rfl⟩

/-- A relative path that climbs twice is normalised to one that stays, and the root has a second
normal form. -/
theorem not_canonical_of_unmatched_ups :
    (⟨"../.."⟩ : Path).normalize.locationFrom ["x", "y"] ≠
        (⟨"../.."⟩ : Path).locationFrom ["x", "y"] ∧
      (∀ start, (⟨"/.."⟩ : Path).locationFrom start = (⟨"/"⟩ : Path).locationFrom start) ∧
      (⟨"/.."⟩ : Path).normalize.components ≠ (⟨"/"⟩ : Path).normalize.components := by
  refine ⟨by decide, fun _ => rfl, by decide⟩

end Path

end InterfaceLang
