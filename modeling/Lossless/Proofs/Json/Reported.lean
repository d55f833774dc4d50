import Lossless.Json.Visitor
import Lossless.Proofs.Json.Written
import Lossless.Proofs.Visit.Reported
import Mathlib.Data.List.Basic

/-!
# What a visit of a data tree reports

By default a visitor is handed the spaces of a tree just as they are printed, and its dispatches are a tour of
the tree.
-/

namespace Lossless

variable {γ α β : Type}

open VisitM

namespace Json

/-- The slots of an element and of the space after it. -/
def paddedSlots
    (below : α -> List (Unit × Space))
    (padded : RightPadded α) : List (Unit × Space) :=
  below padded.element ++ [((), padded.after)]

/-- The slots of a form in source order, given those of the children. -/
def Form.slots (below : α -> List (Unit × Space)) : Form α -> List (Unit × Space)
  | document _ value eof => below value ++ [((), eof)]
  | object members => members.flatMap (paddedSlots below)
  | member key value => paddedSlots below key ++ below value
  | array values => values.flatMap (paddedSlots below)
  | literal .. => []
  | identifier _ => []
  | empty => []

theorem Form.slots_map
    (below : β -> List (Unit × Space))
    (change : α -> β)
    (form : Form α) :
    (form.map change).slots below = form.slots fun child => below (change child) := by
  cases form with
  | object members =>
      simp only [map, slots, List.flatMap_map]
      rfl
  | array values =>
      simp only [map, slots, List.flatMap_map]
      rfl
  | _ => rfl

/-- The slots of a tree in source order. -/
def Tree.slots (tree : Tree) : List (Unit × Space) :=
  recurse (fun head form => ((), head.leading) :: form.slots Prod.snd) tree

theorem Tree.slots_node
    (head : Head)
    (form : Form Tree) :
    (node head form).slots = ((), head.leading) :: form.slots slots := by
  rw [slots, recurse_node, Form.slots_map]
  rfl

/-! ## Printed slots -/

theorem slots_padded
    {padded : RightPadded Tree}
    (child : Piece.spaces padded.element.pieces = padded.element.slots) :
    Piece.spaces (Pieces.padded (padded.map Tree.printed)) = paddedSlots Tree.slots padded := by
  simp [Pieces.padded, Tree.printed, paddedSlots, child]

theorem slots_listElements
    {list : List (RightPadded Tree)}
    (children : forall child, child ∈ RightPadded.elements list -> Piece.spaces child.pieces = child.slots) :
    Piece.spaces (Pieces.listElements (list.map (·.map Tree.printed))) =
      list.flatMap (paddedSlots Tree.slots) := by
  cases list with
  | nil => rfl
  | cons first rest =>
      obtain ⟨here, later⟩ := List.forall_mem_cons.1 children
      have others : rest.flatMap (fun padded => Piece.spaces (Pieces.padded (padded.map Tree.printed))) =
          rest.flatMap (paddedSlots Tree.slots) :=
        List.flatMap_congr fun padded member =>
          slots_padded (later padded.element (List.mem_map_of_mem member))
      simp [Pieces.listElements, slots_padded here, Piece.spaces_flatMap, List.flatMap_map, Pieces.symbol,
        others]

/-- A form is printed with the slots that are its own, in their order. -/
theorem slots_form
    {form : Form Tree}
    (children : forall child, child ∈ form.children -> Piece.spaces child.pieces = child.slots) :
    Piece.spaces (Pieces.form (form.map Tree.printed)) = form.slots Tree.slots := by
  cases form with
  | document source value eof =>
      have atValue := children value (by simp [Form.children])
      simp [Form.map, Pieces.form, Form.slots, Tree.printed, atValue]
  | object members =>
      simp [Form.map, Pieces.form, Form.slots, Pieces.symbol, slots_listElements children]
  | member key value =>
      have atKey := slots_padded (children key.element (by simp [Form.children]))
      have atValue := children value (by simp [Form.children])
      simp [Form.map, Pieces.form, Form.slots, Pieces.symbol, Tree.printed, atKey, atValue]
  | array values =>
      simp [Form.map, Pieces.form, Form.slots, Pieces.symbol, slots_listElements children]
  | _ => rfl

/-- The spaces of a printed tree are its slots. -/
theorem slots_pieces (tree : Tree) : Piece.spaces tree.pieces = tree.slots := by
  induction tree using Tree.induction with
  | step head form ih => simp [Tree.pieces_node, Tree.slots_node, slots_form ih]

/-! ## The order of the nodes -/

theorem starts_listElements (list : List (RightPadded Tree)) :
    Piece.starts (Pieces.listElements (list.map (·.map Tree.printed))) =
      (RightPadded.elements list).flatMap fun child => Piece.starts child.pieces := by
  cases list <;>
    simp [Pieces.listElements, Pieces.padded, Pieces.symbol, Piece.starts_flatMap, List.flatMap_map,
      Tree.printed, RightPadded.elements]

theorem starts_form (form : Form Tree) :
    Piece.starts (Pieces.form (form.map Tree.printed)) =
      form.children.flatMap fun child => Piece.starts child.pieces := by
  cases form with
  | object members =>
      simp [Form.map, Pieces.form, Form.children, Pieces.symbol, starts_listElements]
  | array values =>
      simp [Form.map, Pieces.form, Form.children, Pieces.symbol, starts_listElements]
  | _ => simp [Form.map, Pieces.form, Form.children, Pieces.symbol, Pieces.padded, Tree.printed]

/-- The nodes of a tree are printed every one before those below it and in order. -/
theorem starts_pieces (tree : Tree) : Piece.starts tree.pieces = tree.nodes.map Tree.id := by
  induction tree using Tree.induction with
  | step head form ih =>
      rw [Tree.nodes_node, List.map_cons, List.map_flatMap,
        List.flatMap_congr (fun child member => (ih child member).symm), Tree.pieces_node]
      simp only [Piece.starts_space, Piece.starts_start, Piece.starts_append, Piece.starts_finish,
        Piece.starts_nil, List.append_nil, starts_form]
      rfl

/-! ## The visitor that reports -/

/-- The default visitor, which writes down what it comes by. -/
def reporter : Visitor (List (Report Tree Unit)) γ where
  space := fun space => do
    report (.reads () space)
    return space
  before := fun tree => do
    report (.enters tree)
    return some tree
  after := fun tree => do
    report (.leaves tree)
    return some tree
  dispatch := fun descend tree => do
    report (.dispatches tree)
    descend tree

theorem reporter_isReporting : (reporter : Visitor _ γ).traversal.IsReporting where
  accepts _ := .pure _
  acceptsSource _ := .pure _
  before _ := (report_logs _).bind (Answers.pure _).logs
  after _ := (report_logs _).bind (Answers.pure _).logs

section Walk

variable {visit : Tree -> TreeVisit (List (Report Tree Unit)) γ (Option Tree)}

/-- The visit of a child is a tour of it. -/
def Tourable
    (visit : Tree -> TreeVisit (List (Report Tree Unit)) γ (Option Tree))
    (child : Tree) : Prop :=
  Tours Tree.children [child] child.slots (visit child) (some child)

theorem markers_answers (markers : Markers Space) :
    (visitMarkersWith (reporter : Visitor _ γ).marker markers).Answers markers :=
  .markers (fun _ => .pure _) markers

theorem rightPadded_tours
    {padded : RightPadded Tree}
    (child : Tourable visit padded.element) :
    Tours Tree.children [padded.element] (paddedSlots Tree.slots padded)
      (reporter.rightPadded visit padded) (some padded) :=
  .bind (.within child _) <| .bindAnswers (reads_tours _ _) <|
    .bind (markers_answers _) (.pure _)

theorem rightPaddedList_tours
    {list : List (RightPadded Tree)}
    (children : forall child, child ∈ RightPadded.elements list -> Tourable visit child) :
    Tours Tree.children (RightPadded.elements list) (list.flatMap (paddedSlots Tree.slots))
      (reporter.rightPaddedList visit list) list := by
  induction list with
  | nil => exact .pure _
  | cons first rest ih =>
      obtain ⟨here, later⟩ := List.forall_mem_cons.1 children
      exact .bind (rightPadded_tours here) (.bindAnswers (ih later) (.pure _))

/-- The visit of the parts of a form is a tour of its children and of the slots of the form. -/
theorem visitForm_tours
    {form : Form Tree}
    (children : forall child, child ∈ form.children -> Tourable visit child) :
    Tours Tree.children form.children (form.slots Tree.slots)
      ((reporter : Visitor _ γ).visitForm visit form) (some form) := by
  cases form with
  | document source value eof =>
      exact .bindTree (children value (by simp [Form.children])) (.bindAnswers (reads_tours _ _) (.pure _))
  | object members => exact .bindAnswers (rightPaddedList_tours children) (.pure _)
  | member key value =>
      exact .bindTree (rightPadded_tours (children key.element (by simp [Form.children]))) <|
        .bindAnswers (children value (by simp [Form.children])) (.pure _)
  | array values => exact .bindAnswers (rightPaddedList_tours children) (.pure _)
  | _ => exact .pure _

/-- The walk through a node is a tour of its children and of the slots of the node. -/
theorem descend_tours
    {tree : Tree}
    (children : forall child, child ∈ tree.children -> Tourable visit child) :
    Tours Tree.children tree.children tree.slots ((reporter : Visitor _ γ).descend visit tree)
      (some tree) := by
  obtain ⟨head, form⟩ := tree
  rw [Tree.slots_node]
  have same : (Tree.node head form).revise head.leading head.markers form = .node head form :=
    Tree.revise_self _
  have answers : (pure (some ((Tree.node head form).revise head.leading head.markers form)) :
      TreeVisit (List (Report Tree Unit)) γ (Option Tree)).Answers (some (.node head form)) := by
    rw [same]
    exact .pure _
  exact .bindSpace (reads_tours () head.leading) <|
    .bind (markers_answers head.markers).tours (.bindAnswers (visitForm_tours children) answers)

end Walk

/-- A visit by the default visitor is a tour of its tree and hands it the slots of the tree in order. -/
theorem reporter_tours (tree : Tree) :
    Tours Tree.children [tree] tree.slots ((reporter : Visitor _ γ).run tree) (some tree) := by
  refine reporter_isReporting.visit_tours Tree.slots Tree.height (fun tree child member => ?_)
    (fun _ _ => rfl) (fun _ => rfl) (fun visit tree children => ?_) tree
  · obtain ⟨head, form⟩ := tree
    exact Tree.height_lt_of_mem_children member
  · obtain ⟨log, logs, tour, spaces⟩ := descend_tours children
    exact ⟨log, (report_logs _).bind logs, tour, spaces⟩

end Json
end Lossless
