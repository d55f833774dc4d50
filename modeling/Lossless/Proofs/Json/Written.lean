import Lossless.Proofs.Json.Canonical

/-!
# Written data trees

The text of a data tree, as equations over the forms. `Form.written` is the text of a node without the space
before it; it does not depend on the head of the node.

A value, a key and a member start with a character that tells them from a gap, from a comma and from a closing
delimiter.
-/

namespace Lossless
namespace Json

/-! ## Pieces and text -/

namespace Tree

/-- A child with its pieces. -/
def printed (tree : Tree) : Tree × Pieces :=
  (tree, tree.pieces)

theorem pieces_node
    (head : Head)
    (form : Form Tree) :
    (node head form).pieces =
      .space () head.leading :: .start head.id head.markers ::
        (Pieces.form (form.map printed) ++ [.finish head.id]) := by
  rw [pieces, recurse_node]
  rfl

end Tree

/-- The text of a form, without the space before it. -/
def Form.written (form : Form Tree) : Text :=
  Piece.renderAll .slash .hidden (Pieces.form (form.map Tree.printed))

/-- A tree is written after the space before it. -/
theorem Tree.printTrimmed_eq (tree : Tree) :
    tree.printTrimmed = tree.leading.render .slash ++ tree.form.written := by
  obtain ⟨head, form⟩ := tree
  rw [printTrimmed, pieces_node]
  simp [Piece.render, Markers.render, Form.written, leading, Tree.head, Tree.form]

/-! ## Padded elements -/

/-- The text of an element with the space after it. -/
def writtenPadded (padded : RightPadded Tree) : Text :=
  padded.element.printTrimmed ++ padded.after.render .slash

/-- The text of the elements of a list, with a comma between any two. -/
def writtenElements : List (RightPadded Tree) -> Text
  | [] => []
  | [last] => writtenPadded last
  | padded :: rest => writtenPadded padded ++ ',' :: writtenElements rest

theorem writtenElements_cons
    {rest : List (RightPadded Tree)}
    (more : rest ≠ [])
    (padded : RightPadded Tree) :
    writtenElements (padded :: rest) = writtenPadded padded ++ ',' :: writtenElements rest := by
  cases rest with
  | nil => exact absurd rfl more
  | cons second rest => rfl

/-- A list has at most one element more than it has characters. -/
theorem length_le_length_writtenElements (list : List (RightPadded Tree)) :
    list.length ≤ (writtenElements list).length + 1 := by
  induction list with
  | nil => exact Nat.zero_le _
  | cons first rest ih =>
      by_cases more : rest = []
      · subst more
        exact Nat.le_add_left _ _
      · rw [writtenElements_cons more, List.length_append, List.length_cons, List.length_cons]
        omega

section Pieces

@[simp] theorem fst_printed (child : Tree) : child.printed.1 = child := rfl

@[simp] theorem renderAll_printed (child : Tree) :
    Piece.renderAll .slash .hidden child.printed.2 = child.printTrimmed := rfl

variable {output : MarkerOutput}

theorem renderAll_padded_of_same
    {padded : RightPadded Tree}
    (same : Piece.renderAll .slash output padded.element.pieces = padded.element.printTrimmed) :
    Piece.renderAll .slash output (Pieces.padded (padded.map Tree.printed)) = writtenPadded padded := by
  simp [Pieces.padded, Tree.printed, writtenPadded, Piece.render, same]

/-- The elements of a list are separated in the same way whether or not markers are printed. -/
theorem renderAll_listElements_of_same
    {list : List (RightPadded Tree)}
    (same : forall child, child ∈ RightPadded.elements list ->
      Piece.renderAll .slash output child.pieces = child.printTrimmed) :
    Piece.renderAll .slash output (Pieces.listElements (list.map (·.map Tree.printed))) = writtenElements list := by
  induction list with
  | nil => rfl
  | cons first rest ih =>
      obtain ⟨sameFirst, sameRest⟩ := List.forall_mem_cons.1 same
      have later := ih sameRest
      rw [List.map_cons, Pieces.listElements, Piece.renderAll_append, renderAll_padded_of_same sameFirst]
      cases rest with
      | nil => simp [writtenElements]
      | cons second rest =>
          rw [List.map_cons, Pieces.listElements, Piece.renderAll_append] at later
          rw [writtenElements_cons (List.cons_ne_nil _ _), <- later]
          simp [Piece.render, Pieces.symbol]

@[simp] theorem renderAll_padded (padded : RightPadded Tree) :
    Piece.renderAll .slash .hidden (Pieces.padded (padded.map Tree.printed)) = writtenPadded padded :=
  renderAll_padded_of_same rfl

@[simp] theorem renderAll_listElements (list : List (RightPadded Tree)) :
    Piece.renderAll .slash .hidden (Pieces.listElements (list.map (·.map Tree.printed))) =
      writtenElements list :=
  renderAll_listElements_of_same fun _ _ => rfl

end Pieces

/-! ## The text of each form -/

namespace Form

attribute [local simp] Form.map Pieces.form

@[simp] theorem written_document
    (source : SourceInfo)
    (value : Tree)
    (eof : Space) :
    (document source value eof).written = value.printTrimmed ++ eof.render .slash := by
  simp [written, Piece.render]

@[simp] theorem written_object (members : List (RightPadded Tree)) :
    (object members).written = '\x7b' :: (writtenElements members ++ ['\x7d']) := by
  simp [written, Piece.render, Pieces.symbol]

@[simp] theorem written_member
    (key : RightPadded Tree)
    (value : Tree) :
    (member key value).written = writtenPadded key ++ ':' :: value.printTrimmed := by
  simp [written, Piece.render, Pieces.symbol]

@[simp] theorem written_array (values : List (RightPadded Tree)) :
    (array values).written = '[' :: (writtenElements values ++ [']']) := by
  simp [written, Piece.render, Pieces.symbol]

@[simp] theorem written_literal
    (source : Text)
    (value : Scalar) :
    (literal source value : Form Tree).written = source := by
  simp [written, Piece.render]

@[simp] theorem written_identifier (name : Text) :
    (identifier name : Form Tree).written = name := by
  simp [written, Piece.render]

@[simp] theorem written_empty : (empty : Form Tree).written = [] := rfl

end Form

/-! ## First characters -/

/-- Can start a value or a key. -/
def opensElement (char : Char) : Bool :=
  char = '\x7b' || char = '[' || char = '"' || char = '-' || Text.isIdentifierPart char

/-- A blank starts no element. -/
theorem opensElement_of_isBlank
    {char : Char}
    (blank : Text.isBlank char = true) :
    opensElement char = false := by
  let isSign (char : Char) : Bool := char = '\x7b' || char = '[' || char = '"' || char = '-'
  have noSign : isSign char = false := Text.eq_false_of_isBlank (by decide) blank
  have noName := Text.isIdentifierPart_of_isBlank blank
  exact Bool.or_eq_false_iff.2 ⟨noSign, noName⟩

/-- No other sign of the grammar starts an element. -/
theorem ne_of_opensElement
    {char sign : Char}
    (opens : opensElement char = true)
    (isSign : sign ∈ ['/', ',', ':', ']', '\x7d']) :
    char ≠ sign := by
  have noneOpens : ['/', ',', ':', ']', '\x7d'].any opensElement = false := by decide
  rintro rfl
  rw [Text.eq_false_of_mem noneOpens isSign] at opens
  cases opens

theorem opensElement_of_isIdentifierPart
    {char : Char}
    (isPart : Text.isIdentifierPart char = true) :
    opensElement char = true := by
  simp [opensElement, isPart]

theorem opensElement_of_isNumberStart
    {char : Char}
    (starts : isNumberStart char = true) :
    opensElement char = true := by
  simp only [isNumberStart, Bool.or_eq_true, decide_eq_true_eq] at starts
  rcases starts with rfl | isDigit
  · rfl
  · exact opensElement_of_isIdentifierPart (Text.isIdentifierPart_of_isDigit isDigit)

/-- What starts an element is no gap. -/
theorem isSolid_of_opensElement
    {text : Text}
    (starts : text.startsIn opensElement = true) :
    text.isSolid = true := by
  cases text with
  | nil => rfl
  | cons first rest =>
      apply Text.isSolid_cons
      · apply Bool.eq_false_iff.2
        intro blank
        have opens : opensElement first = true := starts
        rw [opensElement_of_isBlank blank] at opens
        cases opens
      · exact ne_of_opensElement starts (by decide)

/-- The text of a scalar starts like an element. -/
theorem Scalar.IsWrittenAs.startsIn_opensElement
    {value : Scalar}
    {source : Text}
    (isWritten : value.IsWrittenAs source) :
    source.startsIn opensElement = true := by
  cases value with
  | string text =>
      obtain ⟨body, rfl, -⟩ := isWritten
      rfl
  | number value => exact Text.startsIn_of_startsIn opensElement_of_isNumberStart isWritten.1
  | truth truth =>
      obtain rfl : source = (Scalar.truth truth).render := isWritten
      cases truth <;> decide
  | null =>
      obtain rfl : source = Scalar.null.render := isWritten
      decide

/-- The text of a key starts like an element. -/
theorem startsIn_opensElement_of_isKey
    {form : Form Tree}
    (fits : form.Fits)
    (isKey : form.isKey = true) :
    form.written.startsIn opensElement = true := by
  cases form with
  | literal source value =>
      rw [Form.written_literal]
      exact Scalar.IsWrittenAs.startsIn_opensElement fits
  | identifier name =>
      rw [Form.written_identifier]
      apply Text.startsIn_of_startsIn _ fits.1
      exact fun starts => opensElement_of_isIdentifierPart (Text.isIdentifierPart_of_isIdentifierStart starts)
  | _ => cases isKey

/-- The text of a value starts like an element. -/
theorem startsIn_opensElement_of_isValue
    {form : Form Tree}
    (fits : form.Fits)
    (isValue : form.isValue = true) :
    form.written.startsIn opensElement = true := by
  cases form with
  | object members =>
      rw [Form.written_object]
      rfl
  | array values =>
      rw [Form.written_array]
      rfl
  | literal source value =>
      rw [Form.written_literal]
      exact Scalar.IsWrittenAs.startsIn_opensElement fits
  | _ => cases isValue

/-- The text of a member starts with that of its key. -/
theorem startsIn_opensElement_of_isMember
    {tree : Tree}
    (canonical : tree.IsCanonical)
    (isMember : tree.form.isMember = true) :
    tree.form.written.startsIn opensElement = true := by
  have fits := canonical.root.fits
  cases form : tree.form with
  | member key value =>
      rw [form] at fits
      have keyFits := (canonical.part (by rw [form]; exact List.mem_cons_self)).canonical.root.fits
      have starts := startsIn_opensElement_of_isKey keyFits fits.2.1
      rw [Form.written_member, writtenPadded, Tree.printTrimmed_eq, (Space.render_eq_nil_iff _).2 fits.2.2.1,
        List.nil_append, List.append_assoc]
      exact Text.startsIn_append starts _
  | _ =>
      rw [form] at isMember
      cases isMember

end Json
end Lossless
