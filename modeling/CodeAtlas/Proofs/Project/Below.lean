import CodeAtlas.Project.Filter
import CodeAtlas.Directory

/-!
# Paths below a root

A file of a directory is found under a list of names. Its path relative to the directory joins them
with slashes, and the path under which it is reported puts the directory's own path in front.
Whatever that path looks like, the components of the reported path are its components and then the
names, so that the relative path, the ignored names and the extension can be read off either.
-/

namespace CodeAtlas

/-! ### Parts on both sides of a separator -/

theorem Text.splitChars_append_cons (separator : Char) (cs ds : List Char) :
    splitChars separator (cs ++ separator :: ds) =
      splitChars separator cs ++ splitChars separator ds := by
  induction cs with
  | nil =>
    rw [List.nil_append, splitChars_cons_self]
    rfl
  | cons c cs ih =>
    by_cases cut : c = separator
    · rw [cut, List.cons_append, splitChars_cons_self, splitChars_cons_self, ih, List.cons_append]
    · obtain ⟨part, parts, eq⟩ := List.exists_cons_of_ne_nil (splitChars_ne_nil separator cs)
      simp [splitChars, ih, eq, cut]

namespace Path

theorem segments_append (a b : String) : segments (a ++ "/" ++ b) = segments a ++ segments b := by
  have text : (a ++ "/" ++ b).toList = a.toList ++ '/' :: b.toList := by simp
  rw [segments, Text.split, text, Text.splitChars_append_cons, List.map_append]
  rfl

theorem segments_ne_nil (path : String) : segments path ≠ [] := by
  simpa [segments, Text.split] using Text.splitChars_ne_nil '/' path.toList

/-! ### Names -/

/-- A text that can be the name of a file: it stands for itself in a path. -/
def IsName (name : String) : Prop := componentOf? name = some (.normal name) ∧ '/' ∉ name.toList

instance (name : String) : Decidable (IsName name) := inferInstanceAs (Decidable (_ ∧ _))

/-- Names that lead to a file. -/
structure IsPath (names : List String) : Prop where
  ne_nil : names ≠ []
  isName : ∀ name ∈ names, IsName name

instance (names : List String) : Decidable (IsPath names) :=
  decidable_of_iff (names ≠ [] ∧ ∀ name ∈ names, IsName name) ⟨fun h => ⟨h.1, h.2⟩,
    fun h => ⟨h.ne_nil, h.isName⟩⟩

/-- The path that some names make. -/
def ofNames (names : List String) : String := Text.join "/" names

theorem IsName.ne_empty {name : String} (h : IsName name) : name ≠ "" := by
  rintro rfl
  cases h.1

theorem IsName.ne_dot {name : String} (h : IsName name) : name ≠ "." := by
  rintro rfl
  cases h.1

variable {names : List String}

theorem segments_ofNames (h : IsPath names) : segments (ofNames names) = names :=
  Text.split_join '/' names h.ne_nil fun name mem => (h.isName name mem).2

theorem ofNames_inj {others : List String} (h : IsPath names) (h' : IsPath others)
    (same : ofNames names = ofNames others) : names = others := by
  rw [← segments_ofNames h, same, segments_ofNames h']

/-- What lies below a path has its names in front. -/
theorem isPrefix_of_below {others : List String} (h : IsPath names) (h' : IsPath others)
    (below : (ofNames names ++ "/").toList <+: (ofNames others).toList) : names <+: others := by
  obtain ⟨rest, eq⟩ := below
  have text : ofNames others = ofNames names ++ "/" ++ String.ofList rest := by
    apply String.toList_inj.1
    rw [← eq]
    simp
  have parts := segments_append (ofNames names) (String.ofList rest)
  rw [← text, segments_ofNames h', segments_ofNames h] at parts
  exact ⟨_, parts.symm⟩

theorem filterMap_componentOf? (h : IsPath names) :
    names.filterMap componentOf? = names.map Component.normal := by
  have each : ∀ name ∈ names, componentOf? name = some (.normal name) :=
    fun name mem => (h.isName name mem).1
  clear h
  induction names with
  | nil => rfl
  | cons name rest ih =>
    rw [List.filterMap_cons_some (each name List.mem_cons_self), List.map_cons,
      ih fun other mem => each other (List.mem_cons_of_mem name mem)]

/-- A path starts with a slash if its first part is empty and another one follows. -/
theorem hasStart_slash_iff (path : String) :
    Text.hasStart path "/" = true ↔ ∃ rest, path = "" ++ "/" ++ rest := by
  rw [Text.hasStart, List.isPrefixOf_iff_prefix]
  constructor
  · rintro ⟨rest, eq⟩
    exact ⟨String.ofList rest, String.toList_inj.1 (by simpa using eq.symm)⟩
  · rintro ⟨rest, rfl⟩
    exact ⟨rest.toList, by simp⟩

theorem not_hasStart_ofNames (h : IsPath names) : Text.hasStart (ofNames names) "/" = false := by
  rw [Bool.eq_false_iff]
  intro starts
  obtain ⟨rest, eq⟩ := (hasStart_slash_iff _).1 starts
  have parts := segments_ofNames h
  rw [eq, segments_append] at parts
  have empty : "" ∈ names := by
    rw [← parts]
    exact List.mem_append_left _ (by decide)
  exact (h.isName _ empty).ne_empty rfl

theorem ofNames_ne_empty (h : IsPath names) : ofNames names ≠ "" := by
  intro empty
  have parts := segments_ofNames h
  rw [empty] at parts
  have mem : "" ∈ names := by
    rw [← parts]
    decide
  exact (h.isName _ mem).ne_empty rfl

/-! ### Components -/

/-- The component with which a path starts, besides its names. -/
def startOf (path : String) : List Component :=
  if Text.hasStart path "/" then [.root]
  else if (segments path).head? = some "." then [.current]
  else []

theorem components_eq (path : String) :
    components path = startOf path ++ (segments path).filterMap componentOf? := rfl

theorem hasStart_append {a b : String} (h : a ≠ "") :
    Text.hasStart (a ++ b) "/" = Text.hasStart a "/" := by
  have ne : a.toList ≠ [] := by simpa using h
  obtain ⟨c, cs, eq⟩ := List.exists_cons_of_ne_nil ne
  simp [Text.hasStart, eq, List.isPrefixOf]

/-- The first part of a path ends at its first slash. -/
theorem head?_segments_append (a b : String) :
    (segments (a ++ "/" ++ b)).head? = (segments a).head? := by
  obtain ⟨part, parts, eq⟩ := List.exists_cons_of_ne_nil (segments_ne_nil a)
  rw [segments_append, eq]
  rfl

/-- How a path starts is decided before its first slash. -/
theorem startOf_append (a b c : String) : startOf (a ++ "/" ++ b) = startOf (a ++ "/" ++ c) := by
  have start (b : String) : Text.hasStart (a ++ "/" ++ b) "/" = Text.hasStart (a ++ "/") "/" :=
    hasStart_append (by simp)
  rw [startOf, startOf, start, start, head?_segments_append, head?_segments_append]

theorem startOf_append_slash {a : String} (h : a ≠ "") (b : String) :
    startOf (a ++ "/" ++ b) = startOf a := by
  have start : Text.hasStart (a ++ "/" ++ b) "/" = Text.hasStart a "/" := by
    rw [String.append_assoc, hasStart_append h]
  rw [startOf, startOf, start, head?_segments_append]

theorem startOf_ofNames (h : IsPath names) : startOf (ofNames names) = [] := by
  obtain ⟨name, rest, rfl⟩ := List.exists_cons_of_ne_nil h.ne_nil
  have ne := (h.isName name List.mem_cons_self).ne_dot
  rw [startOf, not_hasStart_ofNames h, segments_ofNames h]
  simp [ne]

theorem components_ofNames (h : IsPath names) :
    components (ofNames names) = names.map Component.normal := by
  rw [components_eq, startOf_ofNames h, segments_ofNames h, filterMap_componentOf? h,
    List.nil_append]

/-- Behind a slash a path adds its components, unless it has a start of its own. -/
theorem components_append (a : String) {path : String} (inner : startOf path = []) :
    components (a ++ "/" ++ path) = components (a ++ "/" ++ "") ++ components path := by
  have nothing : (segments "").filterMap componentOf? = [] := rfl
  rw [components_eq, components_eq (a ++ "/" ++ ""), components_eq path, inner,
    startOf_append a path "", segments_append, segments_append, List.filterMap_append,
    List.filterMap_append, nothing, List.append_nil, List.nil_append, List.append_assoc]

theorem components_append_slash {a : String} (h : a ≠ "") :
    components (a ++ "/" ++ "") = components a := by
  rw [components_eq, components_eq, startOf_append_slash h, segments_append, List.filterMap_append]
  have nothing : (segments "").filterMap componentOf? = [] := rfl
  rw [nothing, List.append_nil]

/-- A path below a root has the root's components and then its own. -/
theorem components_join_of_startOf (root : String) {path : String} (inner : startOf path = []) :
    components (join root path) = components root ++ components path := by
  have relative : Text.hasStart path "/" = false := by
    rw [startOf] at inner
    split at inner
    · cases inner
    · next not => exact Bool.eq_false_iff.2 not
  rw [join, relative]
  simp only [Bool.false_eq_true, if_false]
  split
  · next empty =>
    rw [String.isEmpty_iff] at empty
    rw [empty]
    rfl
  · next notEmpty =>
    rw [String.isEmpty_iff] at notEmpty
    split
    · next ends =>
      -- the root brings the slash with it
      obtain ⟨before, eq⟩ := List.isSuffixOf_iff_suffix.1 ends
      have root_eq : root = String.ofList before ++ "/" :=
        String.toList_inj.1 (by simpa using eq.symm)
      rw [root_eq, components_append _ inner, String.append_empty]
    · rw [components_append root inner, components_append_slash notEmpty]

theorem components_join (root : String) (h : IsPath names) :
    components (join root (ofNames names)) = components root ++ names.map Component.normal := by
  rw [components_join_of_startOf root (startOf_ofNames h), components_ofNames h]

/-! ### Joining -/

/-- A path is joined to a base by what joins the empty path to it. -/
theorem join_eq {path : String} (relative : Text.hasStart path "/" = false) (base : String) :
    join base path = join base "" ++ path := by
  have empty : Text.hasStart "" "/" = false := rfl
  rw [join, join, relative, empty]
  simp only [Bool.false_eq_true, if_false]
  split
  · rw [String.empty_append]
  · split <;> rw [String.append_empty]

theorem length_le_length_join (base : String) :
    base.toList.length ≤ (join base "").toList.length := by
  have empty : Text.hasStart "" "/" = false := rfl
  rw [join, empty]
  simp only [Bool.false_eq_true, if_false]
  split
  · next isEmpty => simp [String.isEmpty_iff.1 isEmpty]
  · split <;> simp

/-! ### What is read off a path -/

theorem mapM_name?_map_normal (names : List String) :
    (names.map Component.normal).mapM Component.name? = some names := by
  induction names with
  | nil => rfl
  | cons name rest ih => simp [ih, Component.name?]

theorem below?_join (root : String) (h : IsPath names) :
    below? root (join root (ofNames names)) = some (names.map Component.normal) := by
  have starts :
      (components root).isPrefixOf (components root ++ names.map Component.normal) = true :=
    List.isPrefixOf_iff_prefix.2 (List.prefix_append _ _)
  simp only [below?, components_join root h, starts, if_true, List.drop_left]

theorem relative?_join (root : String) (h : IsPath names) :
    relative? root (join root (ofNames names)) = some (ofNames names) := by
  have some_name : names.isEmpty = false := by simpa using h.ne_nil
  rw [relative?, below?_join root h]
  simp only [Option.bind_eq_bind, Option.bind_some, mapM_name?_map_normal, some_name,
    Bool.false_eq_true, if_false, ofNames]

theorem shouldIgnore_join (ignore : List String) (root : String) (h : IsPath names) :
    shouldIgnore ignore (join root (ofNames names)) =
      (shouldIgnore ignore root || names.any ignore.contains) := by
  rw [shouldIgnore, components_join root h, List.any_append, List.any_map]
  rfl

/-- The file name is the last name. -/
theorem fileName?_of_components {path : String} {above : List Component} (h : IsPath names)
    (eq : components path = above ++ names.map Component.normal) :
    fileName? path = names.getLast? := by
  have last := List.getLast?_eq_some_getLast h.ne_nil
  rw [fileName?, eq, List.getLast?_append, List.getLast?_map, last]
  rfl

theorem extension?_join (root : String) (h : IsPath names) :
    extension? (join root (ofNames names)) = extension? (ofNames names) := by
  have alone : components (ofNames names) = [] ++ names.map Component.normal := components_ofNames h
  rw [extension?, extension?, fileName?_of_components h (components_join root h),
    fileName?_of_components h alone]

end Path

end CodeAtlas
