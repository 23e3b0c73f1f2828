import CodeAtlas.Html.Reader
import CodeAtlas.Proofs.Html.Written

/-!
# Rendered documents

A document is rendered as start tag, rendered children and end tag, with texts and comments as they
are. Reading undoes that. The tokens of a node, read while the elements around it are open, add the
node to the innermost one: a start tag finds that the innermost element can hold it and opens its
own, and the end tag closes just that one. Whatever is open at the end of the text is closed there,
in the same order in which end tags would have closed it.

Main statement: a document that can be rendered is read back from its text, also when end tags of
the last run are left off.
-/

namespace CodeAtlas

namespace Dom

open Html (Token IsTagName IsPlainText IsComment)
open Html.Token (writeAll)

/-! ### Rendering -/

def isText : Dom → Bool
  | .text _ => true
  | _ => false

/-- An element of that name may be the parent of the node. -/
def FitsIn (parent : String) : Dom → Prop
  | .element tag _ => Html.canContain parent tag = true
  | _ => True

instance (parent : String) : (d : Dom) → Decidable (d.FitsIn parent)
  | .element tag _ => inferInstanceAs (Decidable (Html.canContain parent tag = true))
  | .text _ | .comment _ => inferInstanceAs (Decidable True)

/-- A document that markup can express: elements are neither void nor raw, none has a child that
would end it, and no text stands beside another one. -/
inductive Renderable : Dom → Prop
  | element {tag : String} {children : List Dom} (isName : IsTagName tag)
      (notVoid : Html.isVoid tag = false)
      (notRaw : Html.isRaw tag = false) (fits : ∀ child ∈ children, child.FitsIn tag)
      (apart : children.IsChain fun a b => ¬ (a.isText = true ∧ b.isText = true))
      (inner : ∀ child ∈ children, Renderable child) : Renderable (.element tag children)
  | text {content : String} (plain : IsPlainText content) : Renderable (.text content)
  | comment {content : String} (ends : IsComment content) : Renderable (.comment content)

mutual

def render : Dom → String
  | .element tag children => "<" ++ tag ++ ">" ++ renderAll children ++ "</" ++ tag ++ ">"
  | .text content => content
  | .comment content => content

def renderAll : List Dom → String
  | [] => ""
  | d :: rest => render d ++ renderAll rest

end

mutual

/-- The tags, texts and comments of a document in order. -/
def pieces : Dom → List Token
  | .element tag children => .openTag tag false :: (piecesAll children ++ [.closeTag tag false])
  | .text content => [.text content]
  | .comment content => [.comment content]

def piecesAll : List Dom → List Token
  | [] => []
  | d :: rest => pieces d ++ piecesAll rest

end

theorem piecesAll_eq (ds : List Dom) : piecesAll ds = (ds.map pieces).flatten := by
  induction ds with
  | nil => rfl
  | cons d ds ih => rw [piecesAll, ih, List.map_cons, List.flatten_cons]

mutual

/-- A document is rendered by writing its pieces. -/
theorem writeAll_pieces : (d : Dom) → writeAll d.pieces = d.render
  | .element tag children => by
    rw [pieces, render, writeAll, Html.Token.writeAll_append, writeAll_piecesAll children]
    simp [Html.Token.write, Html.Token.gap, writeAll, String.append_assoc]
  | .text content => by simp [pieces, render, writeAll, Html.Token.write]
  | .comment content => by simp [pieces, render, writeAll, Html.Token.write]

theorem writeAll_piecesAll : (ds : List Dom) → writeAll (piecesAll ds) = renderAll ds
  | [] => rfl
  | d :: ds => by
    rw [piecesAll, renderAll, Html.Token.writeAll_append, writeAll_pieces d, writeAll_piecesAll ds]

end

variable {d : Dom}

theorem Renderable.isTidy (h : d.Renderable) : ∀ t ∈ d.pieces, t.IsTidy := by
  induction h with
  | text plain =>
    intro t mem
    rw [List.mem_singleton.1 mem]
    exact plain
  | comment ends =>
    intro t mem
    rw [List.mem_singleton.1 mem]
    exact ends
  | element isName notVoid notRaw fits apart inner ih =>
    intro t mem
    rw [pieces, List.mem_cons, List.mem_append, List.mem_singleton, piecesAll_eq,
      List.mem_flatten] at mem
    rcases mem with rfl | ⟨l, listed, mem⟩ | rfl
    · exact ⟨isName, notRaw⟩
    · obtain ⟨child, memChild, rfl⟩ := List.mem_map.1 listed
      exact ih child memChild t mem
    · exact isName

theorem pieces_ne_nil (d : Dom) : d.pieces ≠ [] := by
  cases d <;> simp [pieces]

/-- The first piece of a node is a text only if the node is one. -/
theorem isText_head?_pieces {t : Token} (first : t ∈ d.pieces.head?) : t.isText = d.isText := by
  cases d <;> simp only [pieces, List.head?_cons, Option.mem_some_iff] at first <;> rw [← first] <;>
    rfl

/-- The last piece of a node is a text only if the node is one. -/
theorem isText_getLast?_pieces {t : Token} (last : t ∈ d.pieces.getLast?) :
    t.isText = d.isText := by
  cases d with
  | element tag children =>
    rw [pieces, ← List.cons_append, List.getLast?_concat, Option.mem_some_iff] at last
    rw [← last]
    rfl
  | text content =>
    cases last
    rfl
  | comment content =>
    cases last
    rfl

theorem Renderable.isChain_pieces (h : d.Renderable) : d.pieces.IsChain Token.Apart := by
  induction h with
  | text plain => exact .singleton _
  | comment ends => exact .singleton _
  | @element tag children isName notVoid notRaw fits apart inner ih =>
    have between : (children.map pieces).flatten.IsChain Token.Apart := by
      rw [List.isChain_flatten (by simp [pieces_ne_nil])]
      constructor
      · intro l listed
        obtain ⟨child, mem, rfl⟩ := List.mem_map.1 listed
        exact ih child mem
      · rw [List.isChain_map]
        refine apart.imp ?_
        rintro a b separate x last y first ⟨textX, textY⟩
        rw [isText_getLast?_pieces last] at textX
        rw [isText_head?_pieces first] at textY
        exact separate ⟨textX, textY⟩
    rw [pieces, piecesAll_eq, List.isChain_cons, List.isChain_append]
    refine ⟨?_, between, .singleton _, ?_⟩
    · rintro y - ⟨isText, -⟩
      cases isText
    · rintro x - y first ⟨-, isText⟩
      cases first
      cases isText

end Dom

/-! ### Reading -/

namespace Html

namespace OpenTags

/-- The innermost open element can hold a node. -/
def HasRoom (o : OpenTags) (d : Dom) : Prop :=
  ∀ inner ∈ o.opened.head?, isVoid inner.tag = false ∧ d.FitsIn inner.tag

variable {o : OpenTags} {d : Dom} {tag : String}

theorem makeRoom_eq {children : List Dom} (h : o.HasRoom (.element tag children)) :
    o.makeRoom tag false = o := by
  obtain ⟨opened, done⟩ := o
  cases opened with
  | nil => rfl
  | cons inner outer =>
    obtain ⟨notVoid, fits⟩ := h inner rfl
    have fits : canContain inner.tag tag = true := fits
    simp [makeRoom, closeWhile, notVoid, fits, closeMany]

/-- An end tag closes the innermost element if it is its own. -/
theorem endTag_self (children : List Dom) (outer : List OpenTag) (done : List Dom) :
    endTag ⟨⟨tag, children⟩ :: outer, done⟩ tag false =
      push ⟨outer, done⟩ (.element tag children.reverse) := by
  have same : sameName tag tag = true := by simp [sameName]
  simp [endTag, close, same, closeMany, closeOne, List.findIdx?_cons]

theorem foldl_piecesAll {children : List Dom} (notVoid : isVoid tag = false)
    (fits : ∀ child ∈ children, child.FitsIn tag)
    (each : ∀ child ∈ children, ∀ o : OpenTags, o.HasRoom child →
      child.pieces.foldl step o = o.push child)
    (before : List Dom) (outer : List OpenTag) (done : List Dom) :
    (Dom.piecesAll children).foldl step ⟨⟨tag, before⟩ :: outer, done⟩ =
      ⟨⟨tag, children.reverse ++ before⟩ :: outer, done⟩ := by
  induction children generalizing before with
  | nil => rfl
  | cons child children ih =>
    have room : HasRoom ⟨⟨tag, before⟩ :: outer, done⟩ child := by
      intro inner first
      cases first
      exact ⟨notVoid, fits child List.mem_cons_self⟩
    have rest := ih (fun d mem => fits d (List.mem_cons_of_mem _ mem))
      (fun d mem => each d (List.mem_cons_of_mem _ mem)) (child :: before)
    rw [Dom.piecesAll, List.foldl_append, each child List.mem_cons_self _ room, push, rest]
    simp

/-- The pieces of a node add it to the innermost open element. -/
theorem foldl_pieces (h : d.Renderable) :
    ∀ o : OpenTags, o.HasRoom d → d.pieces.foldl step o = o.push d := by
  induction h with
  | text plain =>
    intro o _
    rfl
  | comment ends =>
    intro o _
    rfl
  | @element tag children isName notVoid notRaw fits apart inner ih =>
    intro o room
    rw [Dom.pieces, List.foldl_cons, List.foldl_append, step, makeRoom_eq room, OpenTags.open,
      foldl_piecesAll notVoid fits ih]
    show endTag _ tag false = _
    rw [endTag_self]
    simp

theorem length_opened_push (o : OpenTags) (d : Dom) :
    (o.push d).opened.length = o.opened.length := by
  rw [push]
  split <;> simp_all

/-- Closing elements early changes nothing in the end. -/
theorem finish_closeOne (o : OpenTags) : o.closeOne.finish = o.finish := by
  obtain ⟨opened, done⟩ := o
  cases opened with
  | nil => rfl
  | cons inner outer =>
    rw [finish, closeOne, length_opened_push]
    rfl

theorem finish_closeMany (o : OpenTags) (n : Nat) : (o.closeMany n).finish = o.finish := by
  induction n generalizing o with
  | zero => rfl
  | succ n ih => rw [closeMany, ih, finish_closeOne]

theorem finish_endTag (o : OpenTags) (name : String) (spaced : Bool) :
    (o.endTag name spaced).finish = o.finish := by
  rw [endTag]
  split
  · split
    · exact finish_closeOne o
    · rfl
  · split
    · rw [close]
      split
      · exact finish_closeMany o _
      · rfl
    · split
      · rfl
      · exact finish_closeMany o _

/-- End tags at the end of a text do what happens there anyway. -/
theorem finish_foldl_endTags {run : List Token} (ends : ∀ t ∈ run, t.isEndTag = true)
    (o : OpenTags) : (run.foldl step o).finish = o.finish := by
  induction run generalizing o with
  | nil => rfl
  | cons t run ih =>
    rw [List.foldl_cons, ih (fun t mem => ends t (List.mem_cons_of_mem _ mem))]
    cases t with
    | closeTag name spaced => exact finish_endTag o name spaced
    | _ => cases ends _ List.mem_cons_self

end OpenTags

open Token (writeAll)

variable {d : Dom}

/-- The tokens of a document, less some end tags of its last run, are read back from their text. -/
theorem tokens_writeAll_of_sublist (h : d.Renderable) {front run kept : List Token}
    (eq : d.pieces = front ++ run) (ends : ∀ t ∈ run, t.isEndTag = true)
    (sublist : kept.Sublist run) :
    tokens (writeAll (front ++ kept)).toList = front ++ kept := by
  apply tokens_writeAll
  · intro t mem
    apply h.isTidy
    rw [eq]
    exact (sublist.append_left front).subset mem
  · have chain := h.isChain_pieces
    rw [eq] at chain
    have notText {t : Token} (mem : t ∈ kept) : t.isText = false := by
      have isEnd := ends t (sublist.subset mem)
      cases t with
      | closeTag name spaced => rfl
      | _ => cases isEnd
    refine List.isChain_append.2 ⟨chain.left_of_append, List.Pairwise.isChain ?_, ?_⟩
    · apply List.pairwise_of_forall_mem_list
      rintro x - y mem ⟨-, isText⟩
      rw [notText mem] at isText
      cases isText
    · rintro x - y first ⟨-, isText⟩
      rw [notText (List.mem_of_mem_head? first)] at isText
      cases isText

/-- A document is read back from the text it is rendered to, and also if end tags of the last run
are left off. -/
theorem reads_rendered (tag : String) (children : List Dom)
    (h : (Dom.element tag children).Renderable) :
    parse (Dom.element tag children).render = .element tag children ∧
    ∀ front run kept, (Dom.element tag children).pieces = front ++ run →
      (∀ t ∈ run, t.isEndTag = true) →
      kept.Sublist run → parse (writeAll (front ++ kept)) = .element tag children := by
  have shortened : ∀ front run kept, (Dom.element tag children).pieces = front ++ run →
      (∀ t ∈ run, t.isEndTag = true) → kept.Sublist run →
      parse (writeAll (front ++ kept)) = .element tag children := by
    intro front run kept eq ends sublist
    have whole : (front.foldl OpenTags.step {}).finish = [.element tag children] := by
      have all := OpenTags.foldl_pieces h {} (by simp [OpenTags.HasRoom])
      rw [eq, List.foldl_append] at all
      rw [← OpenTags.finish_foldl_endTags ends, all]
      rfl
    have endsKept : ∀ t ∈ kept, t.isEndTag = true := fun t mem => ends t (sublist.subset mem)
    rw [parse, fragment, tokens_writeAll_of_sublist h eq ends sublist, List.foldl_append,
      OpenTags.finish_foldl_endTags endsKept, whole]
    rfl
  refine ⟨?_, shortened⟩
  have all := shortened _ [] [] (List.append_nil _).symm (by simp) .slnil
  rwa [List.append_nil, Dom.writeAll_pieces] at all

/-- The end tag of the last item is left off, that of the list is not. -/
theorem reads_rendered_list :
    (Dom.element "ul" [.element "LI" [.text "one two", .element "b" []], .comment "<!-- > -->",
      .element "li" [.text "3"]]).Renderable ∧
    parse "<ul><LI>one two<b></b></LI><!-- > --><li>3</ul>" =
      .element "ul" [.element "LI" [.text "one two", .element "b" []], .comment "<!-- > -->",
        .element "li" [.text "3"]] := by
  have bold : (Dom.element "b" []).Renderable :=
    .element (by decide) (by decide +kernel) (by decide +kernel) (by simp) .nil (by simp)
  have text : (Dom.text "one two").Renderable := .text (by decide)
  have first : (Dom.element "LI" [.text "one two", .element "b" []]).Renderable :=
    .element (by decide) (by decide +kernel) (by decide +kernel) (by decide +kernel) (by decide)
      (by simp [bold, text])
  have comment : (Dom.comment "<!-- > -->").Renderable :=
    .comment ⟨" > -->".toList, by decide, by decide, by decide⟩
  have last : (Dom.element "li" [.text "3"]).Renderable :=
    .element (by decide) (by decide +kernel) (by decide +kernel) (by decide +kernel) (by decide)
      (by simpa using .text (by decide))
  have renderable :
      (Dom.element "ul" [.element "LI" [.text "one two", .element "b" []], .comment "<!-- > -->",
        .element "li" [.text "3"]]).Renderable :=
    .element (by decide) (by decide +kernel) (by decide +kernel) (by decide +kernel) (by decide)
      (by simp [first, comment, last])
  refine ⟨renderable, ?_⟩
  exact (reads_rendered "ul" _ renderable).2
    [.openTag "ul" false, .openTag "LI" false, .text "one two", .openTag "b" false,
      .closeTag "b" false, .closeTag "LI" false, .comment "<!-- > -->",
      .openTag "li" false, .text "3"]
    [.closeTag "li" false, .closeTag "ul" false] [.closeTag "ul" false] rfl
    (by simp [Token.isEndTag]) (.cons _ (.refl _))

end Html

end CodeAtlas
