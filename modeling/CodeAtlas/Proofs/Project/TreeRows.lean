import CodeAtlas.Project.FileTree
import CodeAtlas.Proofs.Project.Links
import Mathlib.Data.List.Infix

/-!
# What a file tree holds

A tree grows by one route after the other, and each route goes down through the entries that are
there and adds those that are not. What has come of it is said here from the routes alone: a
directory holds the names that the routes start with, in the order in which they first occur, and
under each name the tree of what is left of the routes that start with it (`ofRoutes_eq`). All else
follows by going down this equation.

The rows of a tree are its entries in pre-order, each as the route that leads to it. They are the
prefixes of the routes, in an order that the routes determine.
-/

namespace CodeAtlas.FileTree

/-- The tree of some routes, each a list of names. -/
def ofRoutes (routes : List (List String)) : Directory :=
  routes.foldl (fun dir route => insert route dir) []

theorem ofPaths_eq (paths : List String) : ofPaths paths = ofRoutes (paths.map Path.segments) := by
  rw [ofPaths, ofRoutes, List.foldl_map]

theorem ofRoutes_concat (routes : List (List String)) (route : List String) :
    ofRoutes (routes ++ [route]) = insert route (ofRoutes routes) := by
  rw [ofRoutes, List.foldl_append]
  rfl

/-! ### One level of routes -/

/-- The names that routes start with, in the order in which they first occur. -/
def names (routes : List (List String)) : List String := (routes.filterMap List.head?).eraseDups

def tail? (name : String) : List String → Option (List String)
  | [] => none
  | first :: rest => if first = name then some rest else none

/-- What is left of the routes that start with a name. -/
def below (name : String) (routes : List (List String)) : List (List String) :=
  routes.filterMap (tail? name)

section Level

variable {routes : List (List String)} {name : String} {rest : List String}

theorem tail?_eq_some_iff {route : List String} :
    tail? name route = some rest ↔ route = name :: rest := by
  cases route with
  | nil => simp [tail?]
  | cons first others =>
    by_cases same : first = name
    · simp [tail?, same]
    · simp [tail?, same]

theorem mem_below_iff : rest ∈ below name routes ↔ name :: rest ∈ routes := by
  simp [below, tail?_eq_some_iff]

theorem mem_names_iff : name ∈ names routes ↔ ∃ rest, name :: rest ∈ routes := by
  simp [names, List.mem_eraseDups, List.head?_eq_some_iff, and_comm]

theorem nodup_names (routes : List (List String)) : (names routes).Nodup := nodup_eraseDups _

theorem below_eq_nil (h : name ∉ names routes) : below name routes = [] := by
  rw [List.eq_nil_iff_forall_not_mem]
  intro rest mem
  exact h (mem_names_iff.2 ⟨rest, mem_below_iff.1 mem⟩)

theorem eraseDups_concat_of_mem {l : List String} {a : String} (h : a ∈ l) :
    (l ++ [a]).eraseDups = l.eraseDups := by
  simp [List.eraseDups_append, List.removeAll, h]

theorem eraseDups_concat_of_notMem {l : List String} {a : String} (h : a ∉ l) :
    (l ++ [a]).eraseDups = l.eraseDups ++ [a] := by
  simp [List.eraseDups_append, List.removeAll, h, List.eraseDups_cons]

theorem names_concat (routes : List (List String)) (route : List String) :
    names (routes ++ [route]) = (routes.filterMap List.head? ++ route.head?.toList).eraseDups := by
  rw [names, List.filterMap_append]
  cases route <;> rfl

/-- A route whose first name is there already adds none. -/
theorem names_concat_of_mem (h : name ∈ names routes) :
    names (routes ++ [name :: rest]) = names routes := by
  rw [names_concat]
  exact eraseDups_concat_of_mem (List.mem_eraseDups.1 h)

theorem names_concat_of_notMem (h : name ∉ names routes) :
    names (routes ++ [name :: rest]) = names routes ++ [name] := by
  rw [names_concat]
  exact eraseDups_concat_of_notMem fun mem => h (List.mem_eraseDups.2 mem)

theorem names_concat_nil (routes : List (List String)) : names (routes ++ [[]]) = names routes := by
  rw [names_concat, List.head?_nil, Option.toList_none, List.append_nil, names]

theorem below_concat (routes : List (List String)) (route : List String) :
    below name (routes ++ [route]) = below name routes ++ (tail? name route).toList := by
  rw [below, List.filterMap_append, below]
  cases h : tail? name route <;> simp [h]

theorem below_concat_self (routes : List (List String)) (name : String) (rest : List String) :
    below name (routes ++ [name :: rest]) = below name routes ++ [rest] := by
  simp [below_concat, tail?]

theorem below_concat_of_ne (routes : List (List String)) {name other : String} (ne : name ≠ other)
    (rest : List String) : below other (routes ++ [name :: rest]) = below other routes := by
  simp [below_concat, tail?, ne]

end Level

/-! ### A tree by its levels -/

/-- The directory with some names, each an entry with its contents. -/
def level (names : List String) (inside : String → Directory) : Directory :=
  names.map fun name => .node name (inside name)

section

variable {ns : List String} {name : String} {f : Directory → Directory}
    {inside : String → Directory}

theorem level_update_of_notMem (new : name ∉ ns) (dir : Directory) :
    level ns (Function.update inside name dir) = level ns inside := by
  apply List.map_congr_left
  intro other mem
  rw [Function.update_of_ne (ne_of_mem_of_not_mem mem new)]

theorem change_level_of_mem (mem : name ∈ ns) (distinct : ns.Nodup) :
    change name f (level ns inside) = level ns (Function.update inside name (f (inside name))) := by
  induction ns with
  | nil => simp at mem
  | cons first ns ih =>
    obtain ⟨absent, distinct⟩ := List.nodup_cons.1 distinct
    change change name f (.node first (inside first) :: level ns inside) =
      .node first _ :: level ns _
    rw [change]
    by_cases same : first = name
    · subst same
      rw [if_pos rfl, level_update_of_notMem absent, Function.update_self]
    · rw [if_neg same, ih ((List.mem_cons.1 mem).resolve_left (Ne.symm same)) distinct,
        Function.update_of_ne same]

theorem change_level_of_notMem (new : name ∉ ns) :
    change name f (level ns inside) = level ns inside ++ [.node name (f [])] := by
  induction ns with
  | nil => rfl
  | cons first ns ih =>
    obtain ⟨ne, new⟩ := List.ne_and_not_mem_of_not_mem_cons new
    change change name f (.node first (inside first) :: level ns inside) =
      .node first (inside first) :: _
    rw [change, if_neg (Ne.symm ne), ih new]
    rfl

end

/-- A directory holds the names that the routes start with, and under each the tree of what is left
of them. -/
theorem ofRoutes_eq (routes : List (List String)) :
    ofRoutes routes = level (names routes) fun name => ofRoutes (below name routes) := by
  induction routes using List.reverseRecOn with
  | nil => rfl
  | append_singleton routes route ih =>
    rw [ofRoutes_concat]
    cases route with
    | nil =>
      rw [insert, ih, names_concat_nil]
      simp [below_concat, tail?]
    | cons name rest =>
      have grown : (fun other => ofRoutes (below other (routes ++ [name :: rest]))) =
          Function.update (fun other => ofRoutes (below other routes)) name
            (insert rest (ofRoutes (below name routes))) := by
        funext other
        by_cases same : name = other
        · subst same
          rw [Function.update_self, below_concat_self, ofRoutes_concat]
        · rw [Function.update_of_ne (Ne.symm same), below_concat_of_ne routes same]
      rw [insert, grown, ih]
      by_cases mem : name ∈ names routes
      · rw [names_concat_of_mem mem, change_level_of_mem mem (nodup_names routes)]
      · rw [names_concat_of_notMem mem, change_level_of_notMem mem, below_eq_nil mem, level, level,
          List.map_append, List.map_singleton, Function.update_self]
        exact congrArg (· ++ _) (level_update_of_notMem mem _).symm

/-- A route that is there already changes nothing. -/
theorem ofRoutes_concat_of_mem {routes : List (List String)} {route : List String}
    (h : route ∈ routes) : ofRoutes (routes ++ [route]) = ofRoutes routes := by
  induction route generalizing routes with
  | nil => rw [ofRoutes_concat, insert]
  | cons name rest ih =>
    rw [ofRoutes_eq, names_concat_of_mem (mem_names_iff.2 ⟨rest, h⟩), ofRoutes_eq routes]
    refine congrArg (level (names routes)) (funext fun other => ?_)
    by_cases same : name = other
    · subst same
      rw [below_concat_self, ih (mem_below_iff.2 h)]
    · rw [below_concat_of_ne routes same]

/-- Routes get shorter from level to level, so that what holds of a tree if it holds of those below
holds of all. -/
theorem routes_induction {motive : List (List String) → Prop}
    (step : ∀ routes, (∀ name ∈ names routes, motive (below name routes)) → motive routes)
    (routes : List (List String)) : motive routes := by
  suffices h : ∀ n routes, (∀ route ∈ routes, route.length ≤ n) → motive routes from
    h routes.flatten.length routes fun route mem => (List.sublist_flatten_of_mem mem).length_le
  intro n
  induction n with
  | zero =>
    intro routes short
    apply step
    intro name mem
    obtain ⟨rest, mem⟩ := mem_names_iff.1 mem
    simpa using short _ mem
  | succ n ih =>
    intro routes short
    apply step
    intro name _
    apply ih
    intro rest mem
    simpa using short _ (mem_below_iff.1 mem)

/-! ### The rows of a tree -/

mutual

/-- The routes to an entry and to those inside it, in pre-order. -/
def entryRows : Rose String → List (List String)
  | .node name inside => [name] :: (rows inside).map (name :: ·)

def rows : Directory → List (List String)
  | [] => []
  | entry :: rest => entryRows entry ++ rows rest

end

theorem rows_level (ns : List String) (inside : String → Directory) :
    rows (level ns inside) = ns.flatMap fun name =>
      [name] :: (rows (inside name)).map (name :: ·) := by
  induction ns with
  | nil => rfl
  | cons name ns ih =>
    change entryRows (.node name (inside name)) ++ rows (level ns inside) = _
    rw [entryRows, ih, List.flatMap_cons]

/-- A prefix of a route. The empty prefix is the tree itself, which has no row. -/
def Shows (routes : List (List String)) (row : List String) : Prop :=
  row ≠ [] ∧ ∃ route ∈ routes, row <+: route

variable {routes : List (List String)} {name : String} {row other : List String}

theorem shows_singleton_iff : Shows routes [name] ↔ name ∈ names routes := by
  rw [mem_names_iff]
  constructor
  · rintro ⟨-, route, mem, rest, rfl⟩
    exact ⟨rest, mem⟩
  · rintro ⟨rest, mem⟩
    exact ⟨by simp, _, mem, rest, rfl⟩

theorem shows_cons_iff (ne : row ≠ []) :
    Shows routes (name :: row) ↔ Shows (below name routes) row := by
  constructor
  · rintro ⟨-, route, mem, rest, rfl⟩
    exact ⟨ne, _, mem_below_iff.2 mem, rest, rfl⟩
  · rintro ⟨-, route, mem, isPrefix⟩
    exact ⟨by simp, _, mem_below_iff.1 mem, List.cons_prefix_cons.2 ⟨rfl, isPrefix⟩⟩

theorem mem_names_of_shows_below (h : Shows (below name routes) row) : name ∈ names routes := by
  obtain ⟨-, route, mem, -⟩ := h
  exact mem_names_iff.2 ⟨route, mem_below_iff.1 mem⟩

/-- The rows are the prefixes of the routes. -/
theorem mem_rows_iff : row ∈ rows (ofRoutes routes) ↔ Shows routes row := by
  induction routes using routes_induction generalizing row with
  | step routes ih =>
    rw [ofRoutes_eq, rows_level, List.mem_flatMap]
    constructor
    · rintro ⟨name, mem, here⟩
      rcases List.mem_cons.1 here with rfl | here
      · exact shows_singleton_iff.2 mem
      · obtain ⟨row, inside, rfl⟩ := List.mem_map.1 here
        have shown := (ih name mem).1 inside
        exact (shows_cons_iff shown.1).2 shown
    · intro shown
      match row, shown with
      | [], shown => exact absurd rfl shown.1
      | [name], shown => exact ⟨name, shows_singleton_iff.1 shown, List.mem_cons_self⟩
      | name :: next :: row, shown =>
        have inside := (shows_cons_iff (List.cons_ne_nil next row)).1 shown
        have mem := mem_names_of_shows_below inside
        exact ⟨name, mem, List.mem_cons_of_mem _ (List.mem_map_of_mem ((ih name mem).2 inside))⟩

/-! ### The order of the rows -/

/-- The number of the route in which a prefix occurs first. -/
def first (routes : List (List String)) (row : List String) : Nat := routes.findIdx (row <+: ·)

/-- One row comes before another: it is a prefix of the other, or the two part at names in one
directory, of which that of the former occurs first. -/
def Precedes (routes : List (List String)) (row other : List String) : Prop :=
  (row <+: other ∧ row ≠ other) ∨ ∃ parent name next, parent ++ [name] <+: row ∧
    parent ++ [next] <+: other ∧
    first routes (parent ++ [name]) < first routes (parent ++ [next])

theorem first_lt_length_iff :
    first routes row < routes.length ↔ ∃ route ∈ routes, row <+: route := by
  rw [first, List.findIdx_lt_length]
  simp only [decide_eq_true_eq]

theorem first_cons (route : List String) (routes : List (List String)) (row : List String) :
    first (route :: routes) row = if row <+: route then 0 else first routes row + 1 := by
  rw [first, List.findIdx_cons, first]
  by_cases here : row <+: route <;> simp [here]

/-- Among the routes that start with a name prefixes occur in the same order as among all. -/
theorem first_cons_lt_iff :
    first routes (name :: row) < first routes (name :: other) ↔
      first (below name routes) row < first (below name routes) other := by
  induction routes with
  | nil => rfl
  | cons route routes ih =>
    rw [first_cons, first_cons]
    cases tail : tail? name route with
    | none =>
      have elsewhere (row : List String) : ¬ name :: row <+: route := by
        rintro ⟨rest, rfl⟩
        simp [tail?] at tail
      rw [if_neg (elsewhere row), if_neg (elsewhere other), Nat.add_lt_add_iff_right, ih,
        below, below, List.filterMap_cons_none tail]
    | some rest =>
      obtain rfl := tail?_eq_some_iff.1 tail
      rw [below, List.filterMap_cons_some tail, first_cons, first_cons]
      simp only [List.cons_prefix_cons, true_and]
      change _ ↔ (if _ then 0 else first (below name routes) row + 1) <
        if _ then 0 else first (below name routes) other + 1
      split <;> split <;> simp [ih]

theorem Precedes.cons (h : Precedes (below name routes) row other) :
    Precedes routes (name :: row) (name :: other) := by
  rcases h with ⟨isPrefix, ne⟩ | ⟨parent, a, b, left, right, lt⟩
  · exact .inl ⟨List.cons_prefix_cons.2 ⟨rfl, isPrefix⟩, by simpa using ne⟩
  · refine .inr ⟨name :: parent, a, b, ?_, ?_, first_cons_lt_iff.2 lt⟩
    · exact List.cons_prefix_cons.2 ⟨rfl, left⟩
    · exact List.cons_prefix_cons.2 ⟨rfl, right⟩

theorem eq_of_prefix_of_length {left right : List String} (h : left <+: row) (h' : right <+: row)
    (length : left.length = right.length) : left = right :=
  (List.prefix_of_prefix_length_le h h' length.le).eq_of_length length

/-- Rows that part at two names have no common beginning beyond, so that neither leads on to the
other. -/
theorem not_prefix_of_part {parent : List String} {name next : String}
    (left : parent ++ [name] <+: row) (right : parent ++ [next] <+: other)
    (lt : first routes (parent ++ [name]) < first routes (parent ++ [next])) {common : List String}
    (longer : parent.length < common.length) (isPrefix : common <+: row) : ¬ common <+: other := by
  intro isPrefix'
  have start : parent ++ [name] <+: common := by
    refine List.prefix_of_prefix_length_le left isPrefix ?_
    rw [List.length_append]
    exact longer
  have same := eq_of_prefix_of_length (start.trans isPrefix') right (by simp)
  rw [same] at lt
  exact Nat.lt_irrefl _ lt

theorem Precedes.asymm (h : Precedes routes row other) : ¬ Precedes routes other row := by
  intro h'
  rcases h with ⟨isPrefix, ne⟩ | ⟨parent, a, b, left, right, lt⟩
  · rcases h' with ⟨isPrefix', -⟩ | ⟨parent, a, b, left, right, lt⟩
    · exact ne (isPrefix.eq_of_length_le isPrefix'.length_le)
    · exact not_prefix_of_part left right lt (by simp) (right.trans isPrefix) right
  · rcases h' with ⟨isPrefix, -⟩ | ⟨parent', c, d, left', right', lt'⟩
    · exact not_prefix_of_part left right lt (by simp) (right.trans isPrefix) right
    · have onRow : parent' <+: row := (List.prefix_append _ _).trans right'
      have onOther : parent' <+: other := (List.prefix_append _ _).trans left'
      have onRow' : parent <+: row := (List.prefix_append _ _).trans left
      have onOther' : parent <+: other := (List.prefix_append _ _).trans right
      rcases Nat.lt_trichotomy parent.length parent'.length with shorter | same | longer
      · exact not_prefix_of_part left right lt shorter onRow onOther
      · rw [eq_of_prefix_of_length left right' (by simp [same]),
          eq_of_prefix_of_length right left' (by simp [same])] at lt
        exact Nat.lt_asymm lt lt'
      · exact not_prefix_of_part left' right' lt' longer onOther' onRow'

/-- A route that is added does not change where anything occurred before. -/
theorem first_concat_of_mem (h : name ∈ names routes) (route : List String) :
    first (routes ++ [route]) [name] = first routes [name] := by
  rw [first, List.findIdx_append, ← first,
    if_pos (first_lt_length_iff.2 (shows_singleton_iff.2 h).2)]

theorem first_concat_of_notMem (h : name ∉ names routes) (route : List String) :
    routes.length ≤ first (routes ++ [route]) [name] := by
  have absent : ¬ first routes [name] < routes.length := by
    rw [first_lt_length_iff]
    exact fun occurs => h (shows_singleton_iff.1 ⟨by simp, occurs⟩)
  rw [first, List.findIdx_append, ← first, if_neg absent]
  exact Nat.le_add_left _ _

/-- The names of a directory occur one after the other. -/
theorem pairwise_names (routes : List (List String)) :
    (names routes).Pairwise fun name next => first routes [name] < first routes [next] := by
  induction routes using List.reverseRecOn with
  | nil => exact List.Pairwise.nil
  | append_singleton routes route ih =>
    have old : (names routes).Pairwise fun name next =>
        first (routes ++ [route]) [name] < first (routes ++ [route]) [next] := by
      refine ih.imp_of_mem ?_
      intro name next mem mem' lt
      rwa [first_concat_of_mem mem, first_concat_of_mem mem']
    cases route with
    | nil => rwa [names_concat_nil]
    | cons name rest =>
      by_cases mem : name ∈ names routes
      · rwa [names_concat_of_mem mem]
      · rw [names_concat_of_notMem mem, List.pairwise_append]
        refine ⟨old, List.pairwise_singleton _ _, ?_⟩
        intro earlier mem' new isNew
        obtain rfl := List.mem_singleton.1 isNew
        rw [first_concat_of_mem mem']
        exact Nat.lt_of_lt_of_le (first_lt_length_iff.2 (shows_singleton_iff.2 mem').2)
          (first_concat_of_notMem mem _)

theorem singleton_prefix_of_mem {inside : List (List String)}
    (h : row ∈ [name] :: inside.map (name :: ·)) : [name] <+: row := by
  rcases List.mem_cons.1 h with rfl | h
  · exact List.prefix_refl _
  · obtain ⟨rest, -, rfl⟩ := List.mem_map.1 h
    exact ⟨rest, rfl⟩

theorem pairwise_rows (routes : List (List String)) :
    (rows (ofRoutes routes)).Pairwise (Precedes routes) := by
  induction routes using routes_induction with
  | step routes ih =>
    rw [ofRoutes_eq, rows_level, List.pairwise_flatMap]
    refine ⟨?_, (pairwise_names routes).imp ?_⟩
    · intro name mem
      rw [List.pairwise_cons, List.pairwise_map]
      refine ⟨?_, (ih name mem).imp Precedes.cons⟩
      intro row here
      obtain ⟨row, inside, rfl⟩ := List.mem_map.1 here
      exact .inl ⟨⟨row, rfl⟩, by simpa [eq_comm] using (mem_rows_iff.1 inside).1⟩
    · intro name next lt row mem other mem'
      exact .inr ⟨[], name, next, singleton_prefix_of_mem mem, singleton_prefix_of_mem mem', lt⟩

/-- Every prefix of the routes once, in pre-order. -/
structure IsPreorder (routes rows : List (List String)) : Prop where
  mem_iff : ∀ row, row ∈ rows ↔ Shows routes row
  nodup : rows.Nodup
  ordered : rows.Pairwise (Precedes routes)

theorem isPreorder_rows (routes : List (List String)) :
    IsPreorder routes (rows (ofRoutes routes)) where
  mem_iff _ := mem_rows_iff
  nodup := by
    refine (pairwise_rows routes).imp ?_
    rintro row _ precedes rfl
    exact precedes.asymm precedes
  ordered := pairwise_rows routes

/-- There is no choice in what a tree holds and in which order. -/
theorem IsPreorder.unique {rows others : List (List String)} (h : IsPreorder routes rows)
    (h' : IsPreorder routes others) : rows = others := by
  have perm : rows.Perm others :=
    (List.perm_ext_iff_of_nodup h.nodup h'.nodup).2
      fun row => (h.mem_iff row).trans (h'.mem_iff row).symm
  exact perm.eq_of_pairwise (fun _ _ _ _ before after => absurd after before.asymm)
    h.ordered h'.ordered

end CodeAtlas.FileTree
