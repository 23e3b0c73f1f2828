import CodeAtlas.Proofs.Html.Building

/-!
# Nothing is lost in a document

The elements that are entered and the nodes that are put in place are the pieces of a document. Read
in document order, an element before its children and a node that was put in place as one, the
finished document gives back the pieces in the order in which they came. Each stands as deep as
there were open elements when it came, so that the pieces and their depths determine the document.

While a document is being built, its pieces are those of the finished nodes and then, from the
outermost open element on, each element followed by the pieces of its children so far. Closing an
element changes where its children are kept, but not that list.
-/

namespace CodeAtlas.Html

/-- A part of a document: an element that was entered, or a node that was put in place as a
whole. -/
inductive Piece where
  | opened (tag : String)
  | pushed (node : Dom)

def Action.piece? : Action → Option Piece
  | .enter tag => some (.opened tag)
  | .place node => some (.pushed node)
  | .leave _ => none

/-- The nodes at some depth, read in document order, are these pieces at these depths. -/
inductive ReadsAs : Nat → List Dom → List (Nat × Piece) → Prop
  | nil {n : Nat} : ReadsAs n [] []
  | pushed {n : Nat} {node : Dom} {rest : List Dom} {pieces : List (Nat × Piece)}
      (after : ReadsAs n rest pieces) :
      ReadsAs n (node :: rest) ((n, .pushed node) :: pieces)
  | opened {n : Nat} {tag : String} {children rest : List Dom} {inner pieces : List (Nat × Piece)}
      (below : ReadsAs (n + 1) children inner) (after : ReadsAs n rest pieces) :
      ReadsAs n (.element tag children :: rest) ((n, .opened tag) :: (inner ++ pieces))

namespace ReadsAs

variable {n : Nat} {nodes others : List Dom} {pieces more : List (Nat × Piece)}

theorem append (h : ReadsAs n nodes pieces) (h' : ReadsAs n others more) :
    ReadsAs n (nodes ++ others) (pieces ++ more) := by
  induction h with
  | nil => exact h'
  | pushed after ih => exact .pushed (ih h')
  | opened below after ihBelow ih =>
    rw [List.cons_append, List.cons_append, List.append_assoc]
    exact .opened below (ih h')

theorem element (tag : String) (below : ReadsAs (n + 1) nodes pieces) :
    ReadsAs n [.element tag nodes] ((n, .opened tag) :: pieces) := by
  have alone : ReadsAs n [.element tag nodes] ((n, .opened tag) :: (pieces ++ [])) :=
    .opened below .nil
  rwa [List.append_nil] at alone

theorem le_depth (h : ReadsAs n nodes pieces) : ∀ p ∈ pieces, n ≤ p.1 := by
  induction h with
  | nil => simp
  | pushed after ih => simpa using ih
  | opened below after ihBelow ih =>
    intro p mem
    simp only [List.mem_cons, List.mem_append] at mem
    rcases mem with rfl | mem | mem
    · exact Nat.le_refl _
    · exact Nat.le_of_succ_le (ihBelow p mem)
    · exact ih p mem

theorem depth_head (h : ReadsAs n nodes pieces) : ∀ p ∈ pieces.head?, p.1 = n := by
  cases h <;> simp

/-- The pieces below an element end where the depth is that of the element again. -/
theorem takeWhile_append {inner : List (Nat × Piece)} {children : List Dom}
    (below : ReadsAs (n + 1) children inner) (after : ReadsAs n nodes pieces) :
    (inner ++ pieces).takeWhile (n < ·.1) = inner := by
  have deep : ∀ p ∈ inner, decide (n < p.1) = true :=
    fun p mem => decide_eq_true (below.le_depth p mem)
  have none : pieces.takeWhile (n < ·.1) = [] := by
    cases pieces with
    | nil => rfl
    | cons p pieces => simp [after.depth_head p rfl]
  rw [List.takeWhile_append_of_pos deep, none, List.append_nil]

/-- The pieces and their depths determine the nodes. -/
theorem nodes_eq (h : ReadsAs n nodes pieces) (h' : ReadsAs n others pieces) : nodes = others := by
  induction h generalizing others with
  | nil =>
    cases h'
    rfl
  | pushed after ih =>
    cases h' with
    | pushed after' => rw [ih after']
  | @opened n tag children rest inner pieces below after ihBelow ih =>
    generalize whole : (n, Piece.opened tag) :: (inner ++ pieces) = read at h'
    cases h' with
    | nil => cases whole
    | pushed after' => cases whole
    | @opened _ tag' children' rest' inner' pieces' below' after' =>
      simp only [List.cons.injEq, Prod.mk.injEq, Piece.opened.injEq, true_and] at whole
      obtain ⟨rfl, together⟩ := whole
      have same : inner = inner' := by
        rw [← takeWhile_append below after, together, takeWhile_append below' after']
      subst same
      rw [List.append_cancel_left_eq] at together
      subst together
      rw [ihBelow below', ih after']

end ReadsAs

namespace OpenTags

/-! ### The pieces of an unfinished document -/

/-- What actions put into a document, each piece with the number of elements that are open by
then. -/
def placed (o : OpenTags) : List Action → List (Nat × Piece)
  | [] => []
  | a :: actions => (a.piece?.map (o.opened.length, ·)).toList ++ placed (o.act a) actions

theorem map_snd_placed (o : OpenTags) (actions : List Action) :
    (placed o actions).map Prod.snd = actions.filterMap Action.piece? := by
  induction actions generalizing o with
  | nil => rfl
  | cons a actions ih =>
    rw [placed, List.map_append, ih]
    cases a <;> rfl

/-- An unfinished document has these pieces. -/
inductive Holds : OpenTags → List (Nat × Piece) → Prop
  | top {done : List Dom} {pieces : List (Nat × Piece)} (finished : ReadsAs 0 done.reverse pieces) :
      Holds ⟨[], done⟩ pieces
  | inside {inner : OpenTag} {outer : List OpenTag} {done : List Dom}
      {pieces more : List (Nat × Piece)}
      (around : Holds ⟨outer, done⟩ pieces)
      (below : ReadsAs (outer.length + 1) inner.children.reverse more) :
      Holds ⟨inner :: outer, done⟩ (pieces ++ (outer.length, .opened inner.tag) :: more)

namespace Holds

variable {o : OpenTags} {pieces more : List (Nat × Piece)} {node : Dom}

/-- A node that is added at the innermost level comes last. -/
theorem push (h : Holds o pieces) (added : ReadsAs o.opened.length [node] more) :
    Holds (o.push node) (pieces ++ more) := by
  cases h with
  | top finished =>
    refine .top ?_
    rw [List.reverse_cons]
    exact finished.append added
  | inside around below =>
    rw [List.append_assoc, List.cons_append]
    refine .inside around ?_
    rw [List.reverse_cons]
    exact below.append added

theorem closeOne (h : Holds o pieces) : Holds o.closeOne pieces := by
  cases h with
  | top finished => exact .top finished
  | inside around below => exact around.push (below.element _)

theorem closeMany (h : Holds o pieces) (n : Nat) : Holds (o.closeMany n) pieces := by
  induction n generalizing o with
  | zero => exact h
  | succ n ih => exact ih h.closeOne

theorem close (h : Holds o pieces) (name : String) : Holds (o.close name) pieces := by
  rw [OpenTags.close]
  split
  · exact h.closeMany _
  · exact h

/-- An action adds its own piece. -/
theorem act (h : Holds o pieces) (a : Action) :
    Holds (o.act a) (pieces ++ (a.piece?.map (o.opened.length, ·)).toList) := by
  cases a with
  | enter tag => exact .inside h .nil
  | place node => exact h.push (.pushed .nil)
  | leave name =>
    rw [Action.piece?, Option.map_none, Option.toList_none, List.append_nil]
    exact h.close name

theorem run (h : Holds o pieces) (actions : List Action) :
    Holds (o.run actions) (pieces ++ placed o actions) := by
  induction actions generalizing o pieces with
  | nil =>
    rw [placed, List.append_nil]
    exact h
  | cons a actions ih =>
    rw [placed, ← List.append_assoc]
    exact ih (h.act a)

theorem finish (h : Holds o pieces) : ReadsAs 0 o.finish pieces := by
  have closed := h.closeMany o.opened.length
  have none := opened_closeMany_length o
  rw [OpenTags.finish]
  generalize o.closeMany o.opened.length = final at closed none
  cases closed with
  | top finished => exact finished
  | inside around below => cases none

end Holds

theorem readsAs_finish (actions : List Action) :
    ReadsAs 0 (after actions).finish (placed {} actions) := by
  have start : Holds {} [] := .top .nil
  exact (start.run actions).finish

/-! ### Main statement -/

theorem after_leave (actions : List Action) (name : String) :
    after (actions ++ [.leave name]) = (after actions).close name :=
      after_append actions [.leave name]

/-- The finished document has the pieces that were put into it, in their order and each at its
depth, and it is the only one that has them so. A name that is not open changes nothing. A name that
is open puts the innermost element of that name as a whole where it was entered, and just the
elements that were open then are open. -/
theorem conserves_nodes :
    (∀ actions : List Action,
      (∀ nodes, ReadsAs 0 nodes (placed {} actions) ↔ nodes = (after actions).finish) ∧
      (placed {} actions).map Prod.snd = actions.filterMap Action.piece?) ∧
    (∀ (actions : List Action) (name : String),
      (∀ t ∈ (after actions).opened, sameName t.tag name = false) →
      after (actions ++ [.leave name]) = after actions) ∧
    ∀ (actions : List Action) (name : String),
      (∃ t ∈ (after actions).opened, sameName t.tag name = true) →
      ∃ i tag, IsInnermost actions name i tag ∧
        after (actions ++ [.leave name]) =
          (after (actions.take i)).push (.element tag (after (actions.drop (i + 1))).finish) ∧
        ∀ k other, IsOpen (actions ++ [.leave name]) k other ↔ IsOpen (actions.take i) k other := by
  refine ⟨?_, ?_, ?_⟩
  · intro actions
    have reads := readsAs_finish actions
    refine ⟨fun nodes => ⟨fun h => h.nodes_eq reads, ?_⟩, map_snd_placed {} actions⟩
    rintro rfl
    exact reads
  · intro actions name unmatched
    rw [after_leave, close_of_unmatched unmatched]
  · intro actions name matched
    obtain ⟨i, tag, innermost, free⟩ := exists_isInnermost matched
    have left : after (actions ++ [.leave name]) =
        (after (actions.take i)).push (.element tag (after (actions.drop (i + 1))).finish) := by
      rw [after_leave, innermost.isOpen.after_eq, close_within_self innermost.same free]
    refine ⟨i, tag, innermost, left, fun k other => isOpen_concat_iff innermost.isOpen ?_⟩
    rw [left, length_opened_push]
    rfl

/-- An item of a list is left under another spelling of its name, and a table that was never entered
is left too. -/
theorem conserves_nodes_of_list :
    (placed {} [.enter "ul", .enter "li", .place (.text "one"), .leave "LI", .leave "table",
      .place (.element "li" [])]).map Prod.snd =
      [.opened "ul", .opened "li", .pushed (.text "one"), .pushed (.element "li" [])] ∧
    after ([.enter "ul", .enter "li"] ++ [.leave "table"]) = after [.enter "ul", .enter "li"] ∧
    ∃ i tag, IsInnermost [.enter "ul", .enter "li", .place (.text "one")] "LI" i tag ∧
      ∀ k other,
        IsOpen ([.enter "ul", .enter "li", .place (.text "one")] ++ [.leave "LI"]) k other ↔
          IsOpen ([.enter "ul", .enter "li", .place (.text "one")].take i) k other := by
  obtain ⟨conserved, unmatched, matched⟩ := conserves_nodes
  have item : sameName "li" "LI" = true := by
    rw [sameName_eq]
    decide
  have noTable : ∀ tag ∈ ["li", "ul"], sameName tag "table" = false := by
    simp only [sameName_eq]
    decide
  refine ⟨(conserved _).2, unmatched _ _ ?_, ?_⟩
  · intro t mem
    exact noTable t.tag (List.mem_map_of_mem (f := OpenTag.tag) mem)
  · have found := matched [.enter "ul", .enter "li", .place (.text "one")] "LI"
      ⟨⟨"li", [.text "one"]⟩, List.mem_cons_self, item⟩
    exact found.imp fun i => Exists.imp fun tag h => ⟨h.1, h.2.2⟩

end OpenTags

end CodeAtlas.Html
