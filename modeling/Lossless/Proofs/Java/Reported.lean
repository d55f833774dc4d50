import Lossless.Java.Visitor
import Lossless.Proofs.Java.Written
import Lossless.Proofs.Visit.Reported
import Mathlib.Data.List.Basic

/-!
# What a visit of a syntax tree reports

By default a visitor is handed the spaces of a tree just as they are printed, but for the space behind a
trailing comma, which belongs to a marker; and its dispatches are a tour of the tree.
-/

namespace Lossless

variable {γ α β : Type}

open VisitM

namespace Java

/-- The place of a slot of a node, a padding or a list, as opposed to that of a marker. -/
def SpacePlace.isSlot (place : SpacePlace) : Bool :=
  place ≠ .trailingCommaSuffix

/-- The slots of an element and of the space after it. -/
def paddedSlots
    (below : α -> List (SpacePlace × Space))
    (place : ElementPlace)
    (padded : RightPadded α) : List (SpacePlace × Space) :=
  below padded.element ++ [(place.after, padded.after)]

/-- The slot before an operand and those of the operand. -/
def operandSlots
    (below : α -> List (SpacePlace × Space))
    (place : OperandPlace)
    (padded : LeftPadded α) : List (SpacePlace × Space) :=
  (place.before, padded.before) :: below padded.element

/-- The slot before a delimited list and those of its elements. -/
def containerSlots
    (below : α -> List (SpacePlace × Space))
    (place : ContainerPlace)
    (list : Container α) : List (SpacePlace × Space) :=
  (place.before, list.before) :: list.padded.flatMap (paddedSlots below place.element)

/-- The slots of a form in source order, each with its location, given those of the children. -/
def Form.slots (below : α -> List (SpacePlace × Space)) : Form α -> List (SpacePlace × Space)
  | compilationUnit _ _ statements eof =>
      statements.flatMap (paddedSlots below .compilationUnitStatement) ++ [(.compilationUnitEof, eof)]
  | block statements closing =>
      statements.flatMap (paddedSlots below .blockStatement) ++ [(.blockEnd, closing)]
  | conditional condition consequence alternative =>
      below condition ++ paddedSlots below .ifThen consequence ++ alternative.toList.flatMap below
  | otherwise body => paddedSlots below .elseBody body
  | returns value => value.toList.flatMap below
  | assignment target value _ => below target ++ operandSlots below .assignmentValue value
  | binary left operator right _ => below left ++ (.binaryOperator, operator.before) :: below right
  | identifier .. => []
  | literal .. => []
  | fieldAccess target name _ => below target ++ operandSlots below .fieldAccessName name
  | call receiver name arguments _ =>
      receiver.toList.flatMap (paddedSlots below .methodSelect) ++
        (below name ++ containerSlots below .methodInvocationArguments arguments)
  | declaration returnType name parameters body =>
      returnType.toList.flatMap below ++
        (below name ++
          (containerSlots below .methodDeclarationParameters parameters ++ body.toList.flatMap below))
  | parentheses inner => paddedSlots below .parentheses inner
  | collection _ elements _ => containerSlots below .collectionElements elements
  | empty => []
  | unknown _ => []

section Map

variable (below : β -> List (SpacePlace × Space)) (change : α -> β)

@[simp] theorem paddedSlots_map
    (place : ElementPlace)
    (padded : RightPadded α) :
    paddedSlots below place (padded.map change) =
      paddedSlots (fun child => below (change child)) place padded := rfl

@[simp] theorem operandSlots_map
    (place : OperandPlace)
    (padded : LeftPadded α) :
    operandSlots below place (padded.map change) =
      operandSlots (fun child => below (change child)) place padded := rfl

@[simp] theorem flatMap_paddedSlots_map
    (place : ElementPlace)
    (list : List (RightPadded α)) :
    (list.map (·.map change)).flatMap (paddedSlots below place) =
      list.flatMap (paddedSlots (fun child => below (change child)) place) := by
  rw [List.flatMap_map]
  rfl

@[simp] theorem containerSlots_map
    (place : ContainerPlace)
    (list : Container α) :
    containerSlots below place (list.map change) =
      containerSlots (fun child => below (change child)) place list := by
  simp [containerSlots]

theorem Form.slots_map (form : Form α) :
    (form.map change).slots below = form.slots fun child => below (change child) := by
  cases form with
  | conditional condition consequence alternative => cases alternative <;> simp [map, slots]
  | returns value => cases value <;> simp [map, slots]
  | call receiver name arguments typeTag => cases receiver <;> simp [map, slots]
  | declaration returnType name parameters body =>
      cases returnType <;> cases body <;> simp [map, slots]
  | _ => simp [map, slots]

end Map

/-- The slots of a tree in source order, each with its location. -/
def Tree.slots (tree : Tree) : List (SpacePlace × Space) :=
  recurse (fun head form => (form.leadingPlace, head.leading) :: form.slots Prod.snd) tree

theorem Tree.slots_node
    (head : Head)
    (form : Form Tree) :
    (node head form).slots = (form.leadingPlace, head.leading) :: form.slots slots := by
  rw [slots, recurse_node, Form.slots_map]
  congr 2
  cases form <;> rfl

variable {dialect : Dialect}

/-! ## Printed slots -/

/-- The spaces of pieces that stand in slots. -/
def Pieces.slots (pieces : Pieces) : List (SpacePlace × Space) :=
  (Piece.spaces pieces).filter fun slot => slot.1.isSlot

@[simp] theorem isSlot_after (place : ElementPlace) : place.after.isSlot = true := by
  cases place <;> rfl

@[simp] theorem isSlot_before (place : ContainerPlace) : place.before.isSlot = true := by
  cases place <;> rfl

@[simp] theorem isSlot_beforeOperand (place : OperandPlace) : place.before.isSlot = true := by
  cases place <;> rfl

@[simp] theorem isSlot_leadingPlace (form : Form α) : form.leadingPlace.isSlot = true := by
  cases form <;> rfl

@[simp] theorem isSlot_compilationUnitEof : SpacePlace.compilationUnitEof.isSlot = true := rfl

@[simp] theorem isSlot_blockEnd : SpacePlace.blockEnd.isSlot = true := rfl

/-- The tree is printed with the slots that are its own. -/
def PrintsSlots
    (dialect : Dialect)
    (child : Tree) : Prop :=
  (child.pieces dialect).slots = child.slots

theorem slots_statement
    (place : ElementPlace)
    {padded : RightPadded Tree}
    (child : PrintsSlots dialect padded.element) :
    (Pieces.statement dialect place (padded.map (Tree.printed dialect))).slots =
      paddedSlots Tree.slots place padded := by
  unfold PrintsSlots Pieces.slots at child
  unfold Pieces.statement
  split <;> simp [Pieces.slots, paddedSlots, Tree.printed, Pieces.symbol, child]

theorem slots_statements
    (place : ElementPlace)
    {list : List (RightPadded Tree)}
    (children : forall child, child ∈ RightPadded.elements list -> PrintsSlots dialect child) :
    Pieces.slots ((list.map (·.map (Tree.printed dialect))).flatMap (Pieces.statement dialect place)) =
      list.flatMap (paddedSlots Tree.slots place) := by
  induction list with
  | nil => rfl
  | cons first rest ih =>
      obtain ⟨here, later⟩ := List.forall_mem_cons.1 children
      rw [List.map_cons, List.flatMap_cons, List.flatMap_cons, Pieces.slots, Piece.spaces_append,
        List.filter_append, ← ih later, ← slots_statement place here]
      rfl

theorem slots_trailingComma (markers : Markers Space) : (Pieces.trailingComma markers).slots = [] := by
  unfold Pieces.trailingComma
  split <;> rfl

theorem slots_listElements
    (place : ElementPlace)
    {list : List (RightPadded Tree)}
    (children : forall child, child ∈ RightPadded.elements list -> PrintsSlots dialect child) :
    (Pieces.listElements place (list.map (·.map (Tree.printed dialect)))).slots =
      list.flatMap (paddedSlots Tree.slots place) := by
  induction list with
  | nil => rfl
  | cons first rest ih =>
      obtain ⟨here, later⟩ := List.forall_mem_cons.1 children
      have others := ih later
      unfold PrintsSlots at here
      have comma := slots_trailingComma first.markers
      unfold Pieces.slots at here others comma ⊢
      cases rest with
      | nil => simp [Pieces.listElements, comma, paddedSlots, Tree.printed, here]
      | cons second tail =>
          rw [List.map_cons, List.map_cons, Pieces.listElements]
          · rw [List.map_cons] at others
            simp [others, paddedSlots, Tree.printed, Pieces.symbol, here]
          · exact List.cons_ne_nil _ _

theorem slots_container
    (place : ContainerPlace)
    (delimiters : Text × Text)
    (list : Container Tree)
    (children : forall child, child ∈ list.elements -> PrintsSlots dialect child) :
    (Pieces.container place delimiters (list.map (Tree.printed dialect))).slots =
      containerSlots Tree.slots place list := by
  have elements := slots_listElements place.element children
  unfold Pieces.slots at elements ⊢
  simp [Pieces.container, elements, containerSlots]

theorem slots_option
    (child : Option Tree)
    (prints : forall tree, child = some tree -> PrintsSlots dialect tree) :
    (Pieces.option (child.map (Tree.printed dialect))).slots = child.toList.flatMap Tree.slots := by
  cases child with
  | none => rfl
  | some tree => simpa [PrintsSlots, Pieces.option, Tree.printed] using prints tree rfl

theorem slots_receiver
    (receiver : Option (RightPadded Tree))
    (prints : forall padded, receiver = some padded -> PrintsSlots dialect padded.element) :
    (Pieces.receiver (receiver.map (·.map (Tree.printed dialect)))).slots =
      receiver.toList.flatMap (paddedSlots Tree.slots .methodSelect) := by
  cases receiver with
  | none => rfl
  | some padded =>
      have child := prints padded rfl
      unfold PrintsSlots Pieces.slots at child
      simp [Pieces.slots, Pieces.receiver, Tree.printed, Pieces.symbol, paddedSlots, child]

/-- A form is printed with the slots that are its own, in their order. -/
theorem slots_form
    {form : Form Tree}
    (children : forall child, child ∈ form.children -> PrintsSlots dialect child) :
    (Pieces.form dialect (form.map (Tree.printed dialect))).slots = form.slots Tree.slots := by
  cases form with
  | compilationUnit unitDialect source statements eof =>
      have statements := slots_statements .compilationUnitStatement children
      unfold Pieces.slots at statements ⊢
      simp [Form.map, Pieces.form, Form.slots, statements]
  | block statements closing =>
      have statements := slots_statements .blockStatement children
      unfold Pieces.slots at statements ⊢
      cases dialect <;> simp [Form.map, Pieces.form, Form.slots, statements, Pieces.symbol]
  | conditional condition consequence alternative =>
      have atCondition := children condition (by simp [Form.children])
      have body := slots_statement .ifThen (children consequence.element (by simp [Form.children]))
      have atAlternative := slots_option alternative fun tree present =>
        children tree (by simp [Form.children, present])
      unfold PrintsSlots at atCondition
      unfold Pieces.slots at atCondition body atAlternative ⊢
      simp [Form.map, Pieces.form, Form.slots, Pieces.symbol, Tree.printed, atCondition, body, atAlternative]
  | otherwise body =>
      exact slots_statement .elseBody (children body.element (by simp [Form.children]))
  | returns value =>
      exact slots_option value fun tree present => children tree (by simp [Form.children, present])
  | assignment target value typeTag =>
      have atTarget := children target (by simp [Form.children])
      have atValue := children value.element (by simp [Form.children])
      unfold PrintsSlots Pieces.slots at atTarget atValue
      simp [Pieces.slots, Form.map, Pieces.form, Form.slots, operandSlots, Pieces.symbol, Tree.printed,
        atTarget, atValue]
  | binary left operator right typeTag =>
      have atLeft := children left (by simp [Form.children])
      have atRight := children right (by simp [Form.children])
      unfold PrintsSlots Pieces.slots at atLeft atRight
      simp [Pieces.slots, Form.map, Pieces.form, Form.slots, Tree.printed, atLeft, atRight]
      rfl
  | fieldAccess target name typeTag =>
      have atTarget := children target (by simp [Form.children])
      have atName := children name.element (by simp [Form.children])
      unfold PrintsSlots Pieces.slots at atTarget atName
      simp [Pieces.slots, Form.map, Pieces.form, Form.slots, operandSlots, Pieces.symbol, Tree.printed,
        atTarget, atName]
  | call receiver name arguments typeTag =>
      have atReceiver := slots_receiver receiver fun padded present =>
        children padded.element (by simp [Form.children, present])
      have atName := children name (by simp [Form.children])
      have atArguments := slots_container .methodInvocationArguments (['('], [')']) arguments
        fun child member => children child (by simp [Form.children, member])
      unfold PrintsSlots at atName
      unfold Pieces.slots at atReceiver atName atArguments ⊢
      simp [Form.map, Pieces.form, Form.slots, Tree.printed, atReceiver, atName, atArguments]
  | declaration returnType name parameters body =>
      have atReturnType := slots_option returnType fun tree present =>
        children tree (by simp [Form.children, present])
      have atName := children name (by simp [Form.children])
      have atParameters := slots_container .methodDeclarationParameters (['('], [')']) parameters
        fun child member => children child (by simp [Form.children, member])
      have atBody := slots_option body fun tree present =>
        children tree (by simp [Form.children, present])
      unfold PrintsSlots at atName
      unfold Pieces.slots at atReturnType atName atParameters atBody ⊢
      cases dialect <;>
        simp [Form.map, Pieces.form, Form.slots, Pieces.symbol, Tree.printed, atReturnType, atName,
          atParameters, atBody]
  | parentheses inner =>
      have atInner := children inner.element (by simp [Form.children])
      unfold PrintsSlots Pieces.slots at atInner
      simp [Pieces.slots, Form.map, Pieces.form, Form.slots, paddedSlots, Pieces.symbol, Tree.printed, atInner]
  | collection kind list typeTag => exact slots_container .collectionElements kind.delimiters list children
  | _ => rfl

/-- The spaces of a printed tree are its slots and the spaces behind trailing commas. -/
theorem slots_pieces
    (dialect : Dialect)
    (tree : Tree) :
    (tree.pieces dialect).slots = tree.slots := by
  induction tree using Tree.induction with
  | step head form ih =>
      have atForm := slots_form ih
      unfold Pieces.slots at atForm ⊢
      simp [Tree.pieces_node, Tree.slots_node, atForm]

/-! ## The order of the nodes -/

theorem starts_statements
    (dialect : Dialect)
    (place : ElementPlace)
    (list : List (RightPadded Tree)) :
    Piece.starts ((list.map (·.map (Tree.printed dialect))).flatMap (Pieces.statement dialect place)) =
      (RightPadded.elements list).flatMap fun child => Piece.starts (child.pieces dialect) := by
  induction list with
  | nil => rfl
  | cons first rest ih =>
      have semicolon : Piece.starts (Pieces.statement dialect place (first.map (Tree.printed dialect))) =
          Piece.starts (first.element.pieces dialect) := by
        unfold Pieces.statement
        split <;> simp [Tree.printed, Pieces.symbol]
      rw [List.map_cons, List.flatMap_cons, Piece.starts_append, ih, semicolon]
      rfl

theorem starts_listElements
    (place : ElementPlace)
    (list : List (RightPadded Tree)) :
    Piece.starts (Pieces.listElements place (list.map (·.map (Tree.printed dialect)))) =
      (RightPadded.elements list).flatMap fun child => Piece.starts (child.pieces dialect) := by
  induction list with
  | nil => rfl
  | cons first rest ih =>
      cases rest with
      | nil =>
          have comma : Piece.starts (Pieces.trailingComma first.markers) = [] := by
            unfold Pieces.trailingComma
            split <;> rfl
          simp [Pieces.listElements, comma, Tree.printed, RightPadded.elements]
      | cons second others =>
          rw [List.map_cons, List.map_cons, Pieces.listElements]
          · rw [List.map_cons] at ih
            simp [ih, Tree.printed, Pieces.symbol, RightPadded.elements]
          · exact List.cons_ne_nil _ _

theorem starts_container
    (place : ContainerPlace)
    (delimiters : Text × Text)
    (list : Container Tree) :
    Piece.starts (Pieces.container place delimiters (list.map (Tree.printed dialect))) =
      list.elements.flatMap fun child => Piece.starts (child.pieces dialect) := by
  simp [Pieces.container, starts_listElements, Container.elements]

theorem starts_option (child : Option Tree) :
    Piece.starts (Pieces.option (child.map (Tree.printed dialect))) =
      child.toList.flatMap fun child => Piece.starts (child.pieces dialect) := by
  cases child <;> simp [Pieces.option, Tree.printed]

theorem starts_form (form : Form Tree) :
    Piece.starts (Pieces.form dialect (form.map (Tree.printed dialect))) =
      form.children.flatMap fun child => Piece.starts (child.pieces dialect) := by
  cases form with
  | compilationUnit unitDialect source statements eof =>
      simp [Form.map, Pieces.form, Form.children, starts_statements]
  | block statements closing =>
      cases dialect <;> simp [Form.map, Pieces.form, Form.children, starts_statements, Pieces.symbol]
  | conditional condition consequence alternative =>
      have body := starts_statements dialect .ifThen [consequence]
      simp_all [Form.map, Pieces.form, Form.children, starts_option, Pieces.symbol, Tree.printed,
        RightPadded.elements]
  | otherwise body =>
      have body := starts_statements dialect .elseBody [body]
      simp_all [Form.map, Pieces.form, Form.children, Pieces.symbol, RightPadded.elements]
  | returns value => simp [Form.map, Pieces.form, Form.children, starts_option, Pieces.symbol]
  | assignment target value typeTag =>
      simp [Form.map, Pieces.form, Form.children, Pieces.symbol, Tree.printed]
  | binary left operator right typeTag =>
      simp [Form.map, Pieces.form, Form.children, Tree.printed]
  | fieldAccess target name typeTag =>
      simp [Form.map, Pieces.form, Form.children, Pieces.symbol, Tree.printed]
  | call receiver name arguments typeTag =>
      cases receiver <;>
        simp [Form.map, Pieces.form, Form.children, Pieces.receiver, Pieces.symbol, Tree.printed,
          starts_container]
  | declaration returnType name parameters body =>
      cases dialect <;>
        simp [Form.map, Pieces.form, Form.children, Pieces.symbol, Tree.printed, starts_container,
          starts_option]
  | parentheses inner =>
      simp [Form.map, Pieces.form, Form.children, Pieces.symbol, Tree.printed]
  | collection kind list typeTag => simp [Form.map, Pieces.form, Form.children, starts_container]
  | _ => rfl

/-- The nodes of a tree are printed every one before those below it and in order. -/
theorem starts_pieces (tree : Tree) :
    Piece.starts (tree.pieces dialect) = tree.nodes.map Tree.id := by
  induction tree using Tree.induction with
  | step head form ih =>
      rw [Tree.nodes_node, List.map_cons, List.map_flatMap, List.flatMap_congr (fun child member => (ih child member).symm),
        Tree.pieces_node]
      simp only [Piece.starts_space, Piece.starts_start, Piece.starts_append, Piece.starts_finish,
        Piece.starts_nil, List.append_nil, starts_form]
      rfl

/-! ## The visitor that reports -/

/-- The default visitor, which writes down what it comes by. -/
def reporter : Visitor (List (Report Tree SpacePlace)) γ where
  space := fun place space => do
    report (.reads place space)
    return space
  before := fun tree => do
    report (.enters tree)
    return some tree
  after := fun tree => do
    report (.leaves tree)
    return some tree
  dispatch := fun descend tree => do
    report (.dispatches tree)
    descend tree

theorem reporter_isReporting : (reporter : Visitor _ γ).traversal.IsReporting where
  accepts _ := .pure _
  acceptsSource _ := .pure _
  before _ := (report_logs _).bind (Answers.pure _).logs
  after _ := (report_logs _).bind (Answers.pure _).logs

section Walk

variable {visit : Tree -> TreeVisit (List (Report Tree SpacePlace)) γ (Option Tree)}

/-- The visit of a child is a tour of it. -/
def Tourable
    (visit : Tree -> TreeVisit (List (Report Tree SpacePlace)) γ (Option Tree))
    (child : Tree) : Prop :=
  Tours Tree.children [child] child.slots (visit child) (some child)

/-- The hooks of the visitor that reports for what is no node. -/
abbrev gapReporter : GapVisitor (List (Report Tree SpacePlace)) γ :=
  (reporter : Visitor _ γ).toGapVisitor

theorem markers_answers (markers : Markers Space) :
    ((gapReporter : GapVisitor _ γ).markers markers).Answers markers :=
  .markers (fun _ => .pure _) markers

theorem rightPadded_tours
    (place : ElementPlace)
    {padded : RightPadded Tree}
    (child : Tourable visit padded.element) :
    Tours Tree.children [padded.element] (paddedSlots Tree.slots place padded)
      (gapReporter.rightPadded visit place padded) (some padded) :=
  .bind (.within child _) <| .bindAnswers (reads_tours _ _) <|
    .bind (markers_answers _) (.pure _)

theorem rightPaddedList_tours
    (place : ElementPlace)
    {list : List (RightPadded Tree)}
    (children : forall child, child ∈ RightPadded.elements list -> Tourable visit child) :
    Tours Tree.children (RightPadded.elements list) (list.flatMap (paddedSlots Tree.slots place))
      (gapReporter.rightPaddedList visit place list) list := by
  induction list with
  | nil => exact .pure _
  | cons first rest ih =>
      obtain ⟨here, later⟩ := List.forall_mem_cons.1 children
      exact .bind (rightPadded_tours place here) (.bindAnswers (ih later) (.pure _))

theorem leftPadded_tours
    (place : OperandPlace)
    {padded : LeftPadded Tree}
    (child : Tourable visit padded.element) :
    Tours Tree.children [padded.element] (operandSlots Tree.slots place padded)
      (gapReporter.leftPadded visit place padded) (some padded) := by
  have parts : Tours Tree.children [padded.element] (operandSlots Tree.slots place padded)
      (do
        let before <- (gapReporter : GapVisitor _ γ).space place.before padded.before
        return (before, <- visit padded.element))
      (padded.before, some padded.element) :=
    .bind (reads_tours _ _) (.bindAnswers child (.pure _))
  exact .bindAnswers (.within parts _) (.bind (markers_answers _) (.pure _))

theorem operator_tours (padded : LeftPadded Operator) :
    Tours Tree.children [] [(.binaryOperator, padded.before)]
      ((gapReporter : GapVisitor _ γ).operator padded) padded :=
  .bindAnswers (.attempt (.within (reads_tours _ _) _)) <|
    .bind (markers_answers _) (.bind (.pure _) (.pure _))

theorem container_tours
    (place : ContainerPlace)
    {list : Container Tree}
    (children : forall child, child ∈ list.elements -> Tourable visit child) :
    Tours Tree.children list.elements (containerSlots Tree.slots place list)
      (gapReporter.container visit place list) list := by
  have parts : Tours Tree.children list.elements (containerSlots Tree.slots place list)
      (do
        let before <- (gapReporter : GapVisitor _ γ).space place.before list.before
        return (before, <- gapReporter.rightPaddedList visit place.element list.padded))
      (list.before, list.padded) :=
    .bind (reads_tours _ _) (.bindAnswers (rightPaddedList_tours _ children) (.pure _))
  exact .bindAnswers (.within parts _) (.bind (markers_answers _) (.pure _))

theorem visitOption_tours
    {tree : Option Tree}
    (child : forall child, tree = some child -> Tourable visit child) :
    Tours Tree.children tree.toList (tree.toList.flatMap Tree.slots) (Visitor.visitOption visit tree)
      tree := by
  cases tree with
  | none => exact .pure _
  | some tree =>
      have toured := child tree rfl
      rw [Tourable, ← List.append_nil tree.slots] at toured
      exact toured

theorem visitReceiver_tours
    {padded : Option (RightPadded Tree)}
    (child : forall receiver, padded = some receiver -> Tourable visit receiver.element) :
    Tours Tree.children (padded.map (·.element)).toList
      (padded.toList.flatMap (paddedSlots Tree.slots .methodSelect))
      ((reporter : Visitor _ γ).visitReceiver visit padded) padded := by
  cases padded with
  | none => exact .pure _
  | some padded =>
      have toured := rightPadded_tours .methodSelect (child padded rfl)
      rw [← List.append_nil (paddedSlots _ _ _)] at toured
      exact toured

/-- The visit of the parts of a form is a tour of its children and of the slots of the form. -/
theorem visitForm_tours
    {form : Form Tree}
    (children : forall child, child ∈ form.children -> Tourable visit child) :
    Tours Tree.children form.children (form.slots Tree.slots)
      ((reporter : Visitor _ γ).visitForm visit form) (some form) := by
  cases form with
  | compilationUnit dialect source statements eof =>
      exact .bindSpaces (rightPaddedList_tours .compilationUnitStatement children)
        (.bindAnswers (reads_tours _ _) (.pure _))
  | block statements closing =>
      exact .bindSpaces (rightPaddedList_tours .blockStatement children)
        (.bindAnswers (reads_tours _ _) (.pure _))
  | conditional condition consequence alternative =>
      rw [Form.slots, List.append_assoc]
      refine .bindTree (children condition (by simp [Form.children])) ?_
      refine .bindTree (rightPadded_tours .ifThen (children consequence.element (by simp [Form.children]))) ?_
      exact .bindAnswers (visitOption_tours fun child present =>
        children child (by simp [Form.children, present])) (.pure _)
  | otherwise body =>
      exact .bindAnswers (rightPadded_tours .elseBody (children body.element (by simp [Form.children])))
        (.pure _)
  | returns value =>
      exact .bindAnswers (visitOption_tours fun child present =>
        children child (by simp [Form.children, present])) (.pure _)
  | assignment target value typeTag =>
      exact .bindTree (children target (by simp [Form.children])) <|
        .bindAnswers (leftPadded_tours .assignmentValue (children value.element (by simp [Form.children])))
          (.pure _)
  | binary left operator right typeTag =>
      exact .bindTree (children left (by simp [Form.children])) <|
        .bindSpace (operator_tours operator) <|
          .bindAnswers (children right (by simp [Form.children])) (.pure _)
  | fieldAccess target name typeTag =>
      exact .bindTree (children target (by simp [Form.children])) <|
        .bindAnswers (leftPadded_tours .fieldAccessName (children name.element (by simp [Form.children])))
          (.pure _)
  | call receiver name arguments typeTag =>
      refine .bind (visitReceiver_tours fun padded present =>
        children padded.element (by simp [Form.children, present])) ?_
      refine .bindTree (children name (by simp [Form.children])) ?_
      exact .bindAnswers (container_tours .methodInvocationArguments fun child member =>
        children child (by simp [Form.children, member])) (.pure _)
  | declaration returnType name parameters body =>
      rw [Form.children, List.append_assoc]
      refine .bind (visitOption_tours fun child present =>
        children child (by simp [Form.children, present])) ?_
      refine .bindTree (children name (by simp [Form.children])) ?_
      refine .bind (container_tours .methodDeclarationParameters fun child member =>
        children child (by simp [Form.children, member])) ?_
      exact .bindAnswers (visitOption_tours fun child present =>
        children child (by simp [Form.children, present])) (.pure _)
  | parentheses inner =>
      exact .bindAnswers (rightPadded_tours .parentheses (children inner.element (by simp [Form.children])))
        (.pure _)
  | collection kind list typeTag =>
      exact .bindAnswers (container_tours .collectionElements children) (.pure _)
  | _ => exact .pure _

/-- The walk through a node is a tour of its children and of the slots of the node. -/
theorem descend_tours
    {tree : Tree}
    (children : forall child, child ∈ tree.children -> Tourable visit child) :
    Tours Tree.children tree.children tree.slots ((reporter : Visitor _ γ).descend visit tree)
      (some tree) := by
  obtain ⟨head, form⟩ := tree
  rw [Tree.slots_node]
  have same : (Tree.node head form).revise head.leading head.markers form = .node head form :=
    Tree.revise_self _
  have answers : (pure (some ((Tree.node head form).revise head.leading head.markers form)) :
      TreeVisit (List (Report Tree SpacePlace)) γ (Option Tree)).Answers (some (.node head form)) := by
    rw [same]
    exact .pure _
  exact .bindSpace (reads_tours form.leadingPlace head.leading) <|
    .bind (markers_answers head.markers).tours (.bindAnswers (visitForm_tours children) answers)

end Walk

/-- A visit by the default visitor is a tour of its tree and hands it the slots of the tree in order. -/
theorem reporter_tours (tree : Tree) :
    Tours Tree.children [tree] tree.slots ((reporter : Visitor _ γ).run tree) (some tree) := by
  refine reporter_isReporting.visit_tours Tree.slots Tree.height (fun tree child member => ?_)
    (fun _ _ => rfl) (fun _ => rfl) (fun visit tree children => ?_) tree
  · obtain ⟨head, form⟩ := tree
    exact Tree.height_lt_of_mem_children member
  · obtain ⟨log, logs, tour, spaces⟩ := descend_tours children
    exact ⟨log, (report_logs _).bind logs, tour, spaces⟩

end Java
end Lossless
