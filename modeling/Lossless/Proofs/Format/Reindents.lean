import Lossless.Proofs.Format.Lines
import Lossless.Proofs.Format.Standing
import Lossless.Proofs.Layout.Reindented
import Lossless.Proofs.Visit.Walk

/-!
# Indentation of any tree

What the indentation does between its visits of nodes is a function of the frames: `indentSteps` says what it makes of
the spaces, and which columns it gives to the elements of a list. From these steps follows by induction that a visit
makes of every tree what its surroundings tell. Nothing is asked of the tree, so this holds of trees that no text is
read as, too, and for lists with elements to align.
-/

namespace Lossless
namespace Format
namespace Indents

open Java VisitM

/-! ## Places of spaces -/

section Places

/-- The space before a list goes to the column that follows from the nesting. -/
theorem free_beforeList
    (place : ContainerPlace)
    (cursor : TreeCursor) :
    place.before.isTreePrefix = false ∧ place.before ≠ .methodSelectSuffix ∧
      isForcedAligned cursor place.before = false := by
  cases place <;> exact ⟨rfl, nofun, rfl⟩

/-- The spaces before operands and operators go to the column that follows from the nesting. -/
theorem free_beforeOperand
    (place : OperandPlace)
    (cursor : TreeCursor) :
    place.before.isTreePrefix = false ∧ place.before ≠ .methodSelectSuffix ∧
      isForcedAligned cursor place.before = false := by
  cases place <;> exact ⟨rfl, nofun, rfl⟩

/-- The spaces after parts that are neither receivers nor elements of lists go to the column of the line. -/
theorem forced_after
    {place : ElementPlace}
    (noReceiver : place ≠ .methodSelect)
    (noElement : place.isContainerElement = false)
    (cursor : TreeCursor) :
    place.after.isTreePrefix = false ∧ isForcedAligned cursor place.after = true := by
  cases place <;> first | exact ⟨rfl, rfl⟩ | exact absurd rfl noReceiver | cases noElement

variable {tree : Tree}

theorem ownsBlock_eq (tree : Tree) : ownsBlock [.tree tree] = !(tree.form.isBlock || tree.form.isUnit) := by
  obtain ⟨head, form⟩ := tree
  cases form <;> rfl

theorem isCall_of_form
    {receiver : Option (RightPadded Tree)}
    {name : Tree}
    {list : Container Tree}
    {typeTag : Option Text}
    (form : tree.form = .call receiver name list typeTag) :
    isCall tree = true := by
  rw [isCall, form]

theorem nextTarget_of_kept
    {columns : ListColumns}
    {isFirst : Bool}
    (keeps : (isFirst && columns.aligns) = false)
    (style : IndentStyle)
    (target : Nat)
    (cursor : TreeCursor)
    (unindented indented : Tree) :
    nextTarget style columns isFirst target cursor unindented indented = target := by
  unfold nextTarget
  rw [keeps]
  split <;> rfl

/-- Nothing but a blank is told by surroundings that is not read from the frames. -/
theorem Reads.withBlank
    {style : IndentStyle}
    {cursor : TreeCursor}
    {surroundings : Surroundings}
    (reads : Reads style cursor surroundings)
    (blank : Option Bool) :
    Reads style cursor { surroundings with blank := blank } :=
  ⟨reads.line, reads.nesting, reads.element, reads.chain, reads.isBody⟩

end Places

/-! ## The steps between the visits -/

section Steps

variable (style : IndentStyle)

/-- What becomes of a space and of the frames. -/
def SpaceStep
    (place : SpacePlace)
    (view : View)
    (old : Space)
    (left : View)
    (new : Space) : Prop :=
  if view.stop.isStopped then left = view ∧ new = old
  else
    left = { view with cursor := spaceCursor style place old view.cursor } ∧
      new = indentedSpace style place old view.cursor

/-- The frames in which a list has an element visited, with the column that it gives to the element. -/
def elementView
    (place : ElementPlace)
    (target : Nat)
    (view : View) : View :=
  { view with
    cursor := (view.cursor.push (.padding (.element place))).putMessage elementIndentKey (.column target) }

variable (child : VisitRelation)

/-- The elements of a list are visited one by one, each with the column for it. -/
inductive ListedElements
    (place : ElementPlace)
    (columns : ListColumns) :
    Bool -> Nat -> View -> List (RightPadded Tree) -> View -> List (RightPadded Tree) -> Prop
  | nil {isFirst : Bool} {target : Nat} {view : View} : ListedElements place columns isFirst target view [] view []
  | cons {isFirst : Bool} {target next : Nat} {view back last : View} {padded : RightPadded Tree} {element : Tree}
      {rest rest' : List (RightPadded Tree)} :
      child (elementView place target view) padded.element back element ->
        next = nextTarget style columns isFirst target (view.returned back).cursor padded.element element ->
        ListedElements place columns false next (view.returned back) rest last rest' ->
          ListedElements place columns isFirst target view (padded :: rest) last
            (paddedAfter style columns next back.stop rest.isEmpty element padded :: rest')

/-- The space before a list and its elements, in a frame of the list. -/
inductive ListedContainer
    (place : ContainerPlace)
    (view : View)
    (old : Container Tree) : View -> Container Tree -> Prop
  | mk {opened back : View} {before : Space} {padded : List (RightPadded Tree)} {columns : ListColumns} :
      columns = Exact.listColumns style (lastIndent view.cursor) place ->
        SpaceStep style place.before (view.entered (.padding (.container place))) old.before opened before ->
        ListedElements style child place.element columns true columns.wrapped opened old.padded back padded ->
          ListedContainer place view old (view.returned back) ⟨before, padded, old.markers⟩

/-- What the indentation does between its visits of nodes. -/
def indentSteps : WalkRelation where
  space := SpaceStep style
  markers := fun view old left new => left = view ∧ new = old
  child := child
  list := ListedContainer style child
  opens := fun view tree left => left = { view with cursor := enteredCursor style tree view.cursor }
  closes := fun view old left new => left = view ∧ new = old

end Steps

section GoesOn

variable {style : IndentStyle}

theorem spaceStep_goesOn (place : SpacePlace) : GoesOnAs (SpaceStep style place) (SpaceStep style place) := by
  intro view old left new stepped start
  refine ⟨?_, stepped⟩
  have goesOn : ¬view.stop.isStopped = true := by simp [start, StopAfter.isStopped]
  rw [SpaceStep, if_neg goesOn] at stepped
  rw [stepped.1, start]

variable {child further : VisitRelation} (goesOn : GoesOnAs child further)

include goesOn

theorem listedElements_goesOn
    {place : ElementPlace}
    {columns : ListColumns}
    {isFirst : Bool}
    {target : Nat}
    {view last : View}
    {old new : List (RightPadded Tree)}
    (listed : ListedElements style child place columns isFirst target view old last new)
    (start : view.stop = .never) :
    last.stop = .never ∧ ListedElements style further place columns isFirst target view old last new := by
  induction listed with
  | nil => exact ⟨start, .nil⟩
  | cons element next _ ih =>
      obtain ⟨back, element⟩ := goesOn element start
      obtain ⟨end_, others⟩ := ih back
      exact ⟨end_, .cons element next others⟩

omit goesOn in
/-- Whatever stands for the visits of nodes, the steps of the indentation are the same. -/
theorem areSteps_indentSteps : AreSteps (indentSteps style) := by
  intro child further goesOn
  exact {
    space := spaceStep_goesOn
    markers := fun step start => ⟨step.1 ▸ start, step⟩
    child := goesOn
    list := by
      intro place view old left new listed start
      cases listed with
      | mk columns before elements =>
          obtain ⟨opened, before⟩ := spaceStep_goesOn _ before start
          obtain ⟨back, elements⟩ := listedElements_goesOn goesOn elements opened
          exact ⟨back, .mk columns before elements⟩
    opens := by
      rintro view tree _ rfl start
      exact ⟨start, rfl⟩
    closes := fun step start => ⟨step.1 ▸ start, step⟩ }

end GoesOn

/-! ## The hooks take the steps -/

section Hooks

variable (style : IndentStyle) {child : VisitRelation} {visit : Tree -> PassVisit (Option Tree)}

theorem visitSpace_steps
    (place : SpacePlace)
    (space : Space) :
    Walks (SpaceStep style place) space (Exact.visitSpace style place space) := by
  intro state
  by_cases stopped : state.stop.isStopped = true
  · exact ⟨space, state, visitSpace_of_stopped style stopped place space, (if_pos stopped).mpr ⟨rfl, rfl⟩⟩
  · have goesOn : state.stop.isStopped = false := by simpa using stopped
    exact ⟨_, _, visitSpace_eq style goesOn place space, (if_neg stopped).mpr ⟨rfl, rfl⟩⟩

theorem visitElements_steps
    {place : ElementPlace}
    {columns : ListColumns}
    {list : List (RightPadded Tree)}
    (children : forall tree, tree ∈ RightPadded.elements list -> WalksTo child tree (visit tree))
    (isFirst : Bool)
    (target : Nat)
    (state : VisitState Tree PaddingFrame Unit Unit) :
    (Exact.visitElements style visit place columns isFirst target list).Yields state fun list' left =>
      ListedElements style child place columns isFirst target (viewOf state) list (viewOf left) list' := by
  induction list generalizing isFirst target state with
  | nil => exact .pure .nil
  | cons padded rest ih =>
      obtain ⟨here, later⟩ := List.forall_mem_cons.1 children
      obtain ⟨_, back, visited, element, rfl, related⟩ := here (elementState place target state)
      refine visitElements_cons style visited ((ih later _ _ _).mono fun list' last others => ?_)
      exact .cons (show child (elementView place target (viewOf state)) _ (viewOf back) _ from related) rfl others

theorem visitList_steps
    {place : ContainerPlace}
    {list : Container Tree}
    (children : forall tree, tree ∈ list.elements -> WalksTo child tree (visit tree)) :
    Walks (ListedContainer style child place) list (Exact.visitList style visit place list) := by
  intro state
  obtain ⟨before, opened, atBefore, step⟩ :=
    visitSpace_steps style place.before list.before (state.entered (.padding (.container place)))
  refine visitList_yields style atBefore ((visitElements_steps style children _ _ opened).mono ?_)
  intro padded back elements
  have listed : ListedContainer style child place (viewOf state) list ((viewOf state).returned (viewOf back))
      ⟨before, padded, list.markers⟩ := .mk rfl step elements
  exact listed

/-- The hooks of the indentation take the steps. -/
theorem tabsAndIndents_steps (child : VisitRelation) : (Exact.tabsAndIndents style).Walks (indentSteps style child) where
  gaps := {
    space := visitSpace_steps style
    markers := fun markers state => ⟨markers, state, markers_eq_self rfl markers state, rfl, rfl⟩ }
  list := fun _ _ _ => visitList_steps style
  before := fun tree state isNew =>
    ⟨some tree, _, enterNode_eq style tree state, rfl, goesIn_of_entered style isNew, rfl⟩
  after := fun tree _ => .pure ⟨tree, rfl, rfl, rfl⟩
  accepts := rfl
  acceptsSource := rfl
  dispatch := rfl
  depthBound := rfl
  generations := rfl

end Hooks

/-! ## Entering a node -/

section Entering

variable {styles : Styles} {cursor : TreeCursor} {around : Surroundings}

/-- Wherever a unit stands, what is inside it is read from its own frame. -/
theorem inside_source
    {tree : Tree}
    (reads : Reads styles.indents cursor around)
    (isUnit : tree.form.isUnit = true) :
    let entered := enteredCursor styles.indents tree (cursor.push (.tree tree))
    indentedSpace styles.indents tree.form.leadingPlace tree.leading entered =
        around.indented styles tree.leading tree.form ∧
      Inside styles.indents cursor tree (spaceCursor styles.indents tree.form.leadingPlace tree.leading entered)
        (around.inside styles tree.leading tree.form) := by
  intro entered
  have atPlace := leadingPlace_of_isUnit isUnit
  have atEntered : entered = _ := enteredCursor_of_isUnit isUnit
  have leavesFrames : ¬(tree.form.leadingPlace ≠ .compilationUnitPrefix ∧ tree.leading.containsNewline = true) := by
    simp [atPlace]
  unfold indentedSpace spaceCursor Surroundings.inside Surroundings.indented Surroundings.lineInside
  rw [if_pos atPlace, if_neg leavesFrames, if_pos isUnit, if_pos isUnit, atEntered]
  refine ⟨rfl, readsInside_of_messages reads ?_ ?_ ?_ rfl⟩
  · simp [Messages.read?_put, keys_differ, Message.column?]
  · simp [Messages.read?_put, Message.nesting?]
  · simp [Messages.read?_put, keys_differ]

/-- What becomes of the space before a node, and what is read inside it, follow from its surroundings. -/
theorem inside_node
    (reads : Reads styles.indents cursor around)
    (tree : Tree) :
    let entered := enteredCursor styles.indents tree (cursor.push (.tree tree))
    indentedSpace styles.indents tree.form.leadingPlace tree.leading entered =
        around.indented styles tree.leading tree.form ∧
      Inside styles.indents cursor tree (spaceCursor styles.indents tree.form.leadingPlace tree.leading entered)
        (around.inside styles tree.leading tree.form) := by
  cases isUnit : tree.form.isUnit with
  | true => exact inside_source reads isUnit
  | false =>
      rw [Surroundings.inside_of_isInner isUnit, Surroundings.indented_of_isInner isUnit]
      exact inside_entered reads isUnit

end Entering

/-! ## Visits -/

/-- A visit that nothing stops makes of a node what its surroundings tell. -/
def Reindents (styles : Styles) : VisitRelation := fun view old left new =>
  view.stop = .never -> forall around, Reads styles.indents view.cursor around ->
    left.stop = .never ∧ Left styles.indents view.cursor left.cursor ∧ Reindented styles around old new

/--
A visit with these lines among its frames that nothing stops keeps the frames, and what it makes of a node is related
to the node in its surroundings.
-/
def Makes
    (styles : Styles)
    (below : List (Tree × Option Nat))
    (related : Surroundings -> Tree -> Tree -> Prop) : VisitRelation := fun view old left new =>
  view.stop = .never -> lines view.cursor = below -> forall around, Reads styles.indents view.cursor around ->
    left.stop = .never ∧ Left styles.indents view.cursor left.cursor ∧ related around old new

/-- What the first element of a list sets in frames with these lines. -/
def measuredBelow
    (style : IndentStyle)
    (below : List (Tree × Option Nat)) : Measure := fun columns old new next =>
  ∃ owner, lines owner = below ∧ next = Exact.firstElementColumn style columns owner old new

section Parts

variable {styles : Styles} {child : VisitRelation} {view left : View} {around : TreeCursor} {tree : Tree}
variable {inside : Interior} {below : List (Tree × Option Nat)} {related : Surroundings -> Tree -> Tree -> Prop}

theorem spaceStep_of_never
    {style : IndentStyle}
    {place : SpacePlace}
    {old new : Space}
    (step : SpaceStep style place view old left new)
    (goesOn : view.stop = .never) :
    left = { view with cursor := spaceCursor style place old view.cursor } ∧
      new = indentedSpace style place old view.cursor := by
  have goesOn : ¬view.stop.isStopped = true := by simp [goesOn, StopAfter.isStopped]
  rwa [SpaceStep, if_neg goesOn] at step

variable (makes : forall view old left new, child view old left new -> Makes styles below related view old left new)

include makes

/-- Away from receivers, the visit of a part leaves the frames as they are. -/
theorem part_of_steps
    {surroundings : Surroundings}
    {old new : Tree}
    (visit : child view old left new)
    (goesOn : view.stop = .never)
    (atLines : lines view.cursor = below)
    (reads : Reads styles.indents view.cursor surroundings)
    (alone : surroundings.chain = none) :
    left = view ∧ related surroundings old new := by
  obtain ⟨stop, frames, made⟩ := makes _ _ _ _ visit goesOn atLines surroundings reads
  have noReceiver : callAround? view.cursor = none := Option.map_eq_none_iff.1 (reads.chain.trans alone)
  have cursor := frames.eq_of_none noReceiver
  obtain ⟨leftStop, leftCursor⟩ := left
  obtain ⟨viewStop, viewCursor⟩ := view
  dsimp only at goesOn stop cursor
  subst goesOn stop cursor
  exact ⟨rfl, made⟩

variable (within : Inside styles.indents around tree view.cursor inside)
variable (goesOn : view.stop = .never)
variable (atLines : lines view.cursor = below)

include within goesOn atLines

/-- A part right inside a node. -/
theorem child_of_steps
    {isBody : Bool}
    {old new : Tree}
    (visit : child view old left new)
    (owns : ownsBlock [.tree tree] = isBody) :
    left = view ∧ related { inside.part with isBody := isBody } old new :=
  part_of_steps makes visit goesOn atLines (within.reads.part within.isNode owns) rfl

theorem option_of_steps
    {old new : Option Tree}
    (visit : WalkedOption child view old left new)
    (owns : ownsBlock [.tree tree] = true) :
    left = view ∧ Option.Rel (related inside.part) old new := by
  cases visit with
  | none => exact ⟨rfl, .none⟩
  | some part =>
      obtain ⟨same, made⟩ := child_of_steps makes within goesOn atLines part owns
      exact ⟨same, .some made⟩

theorem padded_of_steps
    {place : ElementPlace}
    {isBody : Bool}
    {old new : RightPadded Tree}
    (walked : WalkedElement (indentSteps styles.indents child) place view old left new)
    (noReceiver : place ≠ .methodSelect)
    (noElement : place.isContainerElement = false)
    (owns : ownsBlock [.tree tree] = isBody) :
    left = view ∧
      ReindentedPadded styles related { inside.part with isBody := isBody } inside.line old new := by
  cases walked with
  | mk element after markers =>
      have reads := within.reads.padded within.isNode owns (.element place)
        (fun same => noReceiver (Option.some.inj same)) (fun other same => Option.some.inj same ▸ noElement)
      obtain ⟨rfl, made⟩ := part_of_steps makes element goesOn ((lines_push ..).trans atLines) reads rfl
      rw [returned_entered] at after
      obtain ⟨isBetween, forced⟩ := forced_after noReceiver noElement view.cursor
      obtain ⟨rfl, moved⟩ := spaceStep_of_never after goesOn
      obtain ⟨rfl, rfl⟩ := markers
      obtain ⟨column, same⟩ := within.reads.edge isBetween forced _
      exact ⟨by rw [same], made, moved.trans column, rfl⟩

theorem statements_of_steps
    {place : ElementPlace}
    {old new : List (RightPadded Tree)}
    (walked : WalkedElements (indentSteps styles.indents child) place view old left new)
    (noReceiver : place ≠ .methodSelect)
    (noElement : place.isContainerElement = false)
    (owns : ownsBlock [.tree tree] = false) :
    left = view ∧
      List.Forall₂ (ReindentedPadded styles related inside.statement inside.line) old new := by
  induction walked with
  | nil => exact ⟨rfl, .nil⟩
  | cons first _ ih =>
      obtain ⟨rfl, made⟩ := padded_of_steps makes within goesOn atLines first noReceiver noElement owns
      obtain ⟨same, others⟩ := ih within goesOn atLines
      exact ⟨same, .cons made others⟩

omit makes atLines in
/-- A space before an operand or an operator, in the frame of its padding. -/
theorem before_of_steps
    {place : OperandPlace}
    {old new : Space}
    (step : SpaceStep styles.indents place.before (view.entered (.padding (.operand place))) old left new) :
    left = view.entered (.padding (.operand place)) ∧
      new = Exact.indentTo styles.indents (inside.between styles.indents) old := by
  obtain ⟨isBetween, noSegment, free⟩ := free_beforeOperand place (view.cursor.push (.padding (.operand place)))
  obtain ⟨rfl, moved⟩ := spaceStep_of_never step goesOn
  obtain ⟨column, same⟩ := within.reads.gap (.operand place) isBetween noSegment free none old
  exact ⟨congrArg (View.mk view.stop) same, moved.trans column⟩

theorem operand_of_steps
    {place : OperandPlace}
    {old new : LeftPadded Tree}
    (walked : WalkedOperand (indentSteps styles.indents child) place view old left new)
    (owns : ownsBlock [.tree tree] = true) :
    left = view ∧
      ReindentedOperand styles related inside.part (inside.between styles.indents) old new := by
  cases walked with
  | mk before element markers =>
      obtain ⟨rfl, moved⟩ := before_of_steps within goesOn before
      have reads := within.reads.padded within.isNode owns (.operand place) nofun nofun
      obtain ⟨rfl, made⟩ := part_of_steps makes element goesOn ((lines_push ..).trans atLines) reads rfl
      obtain ⟨rfl, rfl⟩ := markers
      exact ⟨returned_entered .., moved, made, rfl⟩

omit makes atLines in
theorem operator_of_steps
    {old new : LeftPadded Operator}
    (walked : WalkedOperator (indentSteps styles.indents child) view old left new) :
    left = view ∧ new = { old with before := Exact.indentTo styles.indents (inside.between styles.indents) old.before } := by
  cases walked with
  | mk before markers =>
      obtain ⟨rfl, rfl⟩ := before_of_steps within goesOn before
      obtain ⟨rfl, rfl⟩ := markers
      exact ⟨returned_entered .., rfl⟩

/-- Behind the receiver of a call, the column of its chain may be noted, and the space before the dot can start a line. -/
theorem receiver_of_steps
    {old new : RightPadded Tree}
    (walked : WalkedElement (indentSteps styles.indents child) .methodSelect view old left new)
    (calls : isCall tree = true) :
    left.stop = .never ∧ lines left.cursor = below ∧
      Inside styles.indents around tree left.cursor (inside.afterReceiver old.after) ∧
      ReindentedPadded styles related inside.receiver inside.chain old new := by
  cases walked with
  | @mk back _ _ _ _ _ _ _ _ element atAfter markers =>
      have isNode := within.isNode
      obtain ⟨stop, frames, made⟩ :=
        makes _ _ _ _ element goesOn ((lines_push ..).trans atLines) _ (within.reads.receiver isNode calls)
      -- the frames of the call are as they were, or the column of the chain is noted
      obtain ⟨behind, linesBehind⟩ : Inside styles.indents around tree (view.cursor.returnTo back.cursor) inside ∧
          lines (view.cursor.returnTo back.cursor) = below := by
        rcases frames.call (callAround?_receiver isNode calls) with same | noted
        · rw [same, Cursor.returnTo_frames _ rfl]
          exact ⟨within, atLines⟩
        · rw [noted, Cursor.returnTo_frames _ (values_noteChain ..)]
          exact ⟨within.noteChain, (lines_noteChain _).trans atLines⟩
      obtain ⟨rfl, moved⟩ := spaceStep_of_never atAfter stop
      obtain ⟨rfl, rfl⟩ := markers
      obtain ⟨column, inner⟩ := behind.afterReceiver _
      exact ⟨stop, (lines_spaceCursor rfl _).trans linesBehind, inner, made, moved.trans column, rfl⟩

omit within in
/-- The elements of a list, each of which reads the column that is given to it. -/
theorem elements_of_steps
    {place : ElementPlace}
    {columns : ListColumns}
    {isFirst : Bool}
    {target : Nat}
    {old new : List (RightPadded Tree)}
    (listed : ListedElements styles.indents child place columns isFirst target view old left new)
    (inList : ∃ owner, view.cursor.parent? = some owner ∧ lines owner = below)
    (reads : forall column, Reads styles.indents (elementView place column view).cursor (inside.listed column)) :
    left = view ∧
      ReindentedElements styles (measuredBelow styles.indents below) related inside columns isFirst target old new := by
  induction listed with
  | nil => exact ⟨rfl, .nil⟩
  | @cons isFirst target next view back last padded element rest rest' visit atNext _ ih =>
      have atElement : lines (elementView place target view).cursor = below :=
        (lines_putMessage (by decide)).trans ((lines_push ..).trans atLines)
      obtain ⟨rfl, made⟩ := part_of_steps makes visit goesOn atElement (reads target) rfl
      have back : view.returned (elementView place target view) = view :=
        congrArg (View.mk view.stop) (Cursor.returnTo_frames _ rfl)
      rw [back] at ih atNext
      obtain ⟨rfl, others⟩ := ih goesOn atLines inList reads
      refine ⟨rfl, ?_⟩
      rw [paddedAfter, show (elementView place target last).stop = .never from goesOn]
      refine .cons made (fun keeps => ?_) (fun sets => ?_) others
      · rw [atNext]
        exact nextTarget_of_kept keeps ..
      · obtain ⟨owner, parent, atOwner⟩ := inList
        refine ⟨owner, atOwner, ?_⟩
        rw [atNext, nextTarget, parent]
        exact if_pos sets

theorem list_of_steps
    {place : ContainerPlace}
    {old new : Container Tree}
    (listed : ListedContainer styles.indents child place view old left new)
    (owns : ownsBlock [.tree tree] = true) :
    left = view ∧ ReindentedList styles (measuredBelow styles.indents below) related inside place old new := by
  cases listed with
  | mk columns before elements =>
      obtain ⟨isBetween, noSegment, free⟩ := free_beforeList place (view.cursor.push (.padding (.container place)))
      obtain ⟨rfl, moved⟩ := spaceStep_of_never before goesOn
      obtain ⟨column, same⟩ := within.reads.gap (.container place) isBetween noSegment free none old.before
      have opened : View.mk view.stop (spaceCursor styles.indents place.before old.before
          (view.cursor.push (.padding (.container place)))) = view.entered (.padding (.container place)) :=
        congrArg (View.mk view.stop) same
      change ListedElements _ _ _ _ _ _ (View.mk view.stop (spaceCursor _ _ _ (view.cursor.push _))) _ _ _ at elements
      rw [opened] at elements
      have entered : (view.entered (.padding (.container place))).stop = .never := goesOn
      have reads (target : Nat) : Reads styles.indents
          (elementView place.element target (view.entered (.padding (.container place)))).cursor (inside.listed target) :=
        (within.reads.element within.isNode owns place target false).withBlank none
      have inList : ∃ owner, (view.entered (.padding (.container place))).cursor.parent? = some owner ∧
          lines owner = below :=
        ⟨view.cursor, rfl, atLines⟩
      obtain ⟨rfl, made⟩ := elements_of_steps makes entered ((lines_push ..).trans atLines) elements inList reads
      rw [columns, within.reads.line] at made
      exact ⟨returned_entered .., moved.trans column, made, rfl⟩

omit makes atLines in
/-- A gap at the end of a node goes to the column of the line. -/
theorem edge_of_steps
    {place : SpacePlace}
    {old new : Space}
    (step : SpaceStep styles.indents place view old left new)
    (isBetween : place.isTreePrefix = false)
    (forced : isForcedAligned view.cursor place = true) :
    left = view ∧ new = Exact.indentTo styles.indents inside.line old := by
  obtain ⟨rfl, moved⟩ := spaceStep_of_never step goesOn
  obtain ⟨column, same⟩ := within.reads.edge isBetween forced old
  exact ⟨by rw [same], moved.trans column⟩

end Parts

section Nodes

variable {styles : Styles} {child : VisitRelation} {view left : View} {around : TreeCursor} {tree : Tree}
variable {inside : Interior} {below : List (Tree × Option Nat)} {related : Surroundings -> Tree -> Tree -> Prop}
variable (makes : forall view old left new, child view old left new -> Makes styles below related view old left new)

include makes

/-- What becomes of the parts of a node follows from what is inside it. -/
theorem form_of_steps
    {old new : Form Tree}
    (walked : WalkedForm (indentSteps styles.indents child) view old left new)
    (within : Inside styles.indents around tree view.cursor inside)
    (goesOn : view.stop = .never)
    (atLines : lines view.cursor = below)
    (form : tree.form = old) :
    left.stop = .never ∧ (∃ inner, Inside styles.indents around tree left.cursor inner) ∧
      ReindentedForm styles (measuredBelow styles.indents below) related inside old new := by
  have owns := ownsBlock_eq tree
  rw [form] at owns
  cases walked with
  | compilationUnit atStatements atEof =>
      obtain ⟨rfl, statements⟩ := statements_of_steps makes within goesOn atLines atStatements (by rintro ⟨⟩) rfl owns
      obtain ⟨rfl, rfl⟩ := edge_of_steps within goesOn atEof rfl rfl
      exact ⟨goesOn, ⟨_, within⟩, .compilationUnit statements⟩
  | block atStatements atEnd =>
      obtain ⟨rfl, statements⟩ := statements_of_steps makes within goesOn atLines atStatements (by rintro ⟨⟩) rfl owns
      obtain ⟨rfl, rfl⟩ := edge_of_steps within goesOn atEnd rfl rfl
      exact ⟨goesOn, ⟨_, within⟩, .block statements⟩
  | conditional atCondition atConsequence atAlternative =>
      obtain ⟨rfl, condition⟩ := child_of_steps makes within goesOn atLines atCondition owns
      obtain ⟨rfl, consequence⟩ := padded_of_steps makes within goesOn atLines atConsequence (by rintro ⟨⟩) rfl owns
      obtain ⟨rfl, alternative⟩ := option_of_steps makes within goesOn atLines atAlternative owns
      exact ⟨goesOn, ⟨_, within⟩, .conditional condition consequence alternative⟩
  | otherwise atBody =>
      obtain ⟨rfl, body⟩ := padded_of_steps makes within goesOn atLines atBody (by rintro ⟨⟩) rfl owns
      exact ⟨goesOn, ⟨_, within⟩, .otherwise body⟩
  | returns atValue =>
      obtain ⟨rfl, value⟩ := option_of_steps makes within goesOn atLines atValue owns
      exact ⟨goesOn, ⟨_, within⟩, .returns value⟩
  | assignment atTarget atValue =>
      obtain ⟨rfl, target⟩ := child_of_steps makes within goesOn atLines atTarget owns
      obtain ⟨rfl, value⟩ := operand_of_steps makes within goesOn atLines atValue owns
      exact ⟨goesOn, ⟨_, within⟩, .assignment target value⟩
  | binary atLeft atOperator atRight =>
      obtain ⟨rfl, leftTree⟩ := child_of_steps makes within goesOn atLines atLeft owns
      obtain ⟨rfl, rfl⟩ := operator_of_steps within goesOn atOperator
      obtain ⟨rfl, right⟩ := child_of_steps makes within goesOn atLines atRight owns
      exact ⟨goesOn, ⟨_, within⟩, .binary leftTree right⟩
  | identifier => exact ⟨goesOn, ⟨_, within⟩, .identifier⟩
  | literal => exact ⟨goesOn, ⟨_, within⟩, .literal⟩
  | fieldAccess atTarget atName =>
      obtain ⟨rfl, target⟩ := child_of_steps makes within goesOn atLines atTarget owns
      obtain ⟨rfl, name⟩ := operand_of_steps makes within goesOn atLines atName owns
      exact ⟨goesOn, ⟨_, within⟩, .fieldAccess target name⟩
  | call atReceiver atName atList =>
      cases atReceiver with
      | none =>
          obtain ⟨rfl, name⟩ := child_of_steps makes within goesOn atLines atName owns
          obtain ⟨rfl, list⟩ := list_of_steps makes within goesOn atLines atList owns
          exact ⟨goesOn, ⟨_, within⟩, .plainCall name list⟩
      | some atReceiver =>
          obtain ⟨goesOn, linesBehind, behind, receiver⟩ :=
            receiver_of_steps makes within goesOn atLines atReceiver (isCall_of_form form)
          obtain ⟨rfl, name⟩ := child_of_steps makes behind goesOn linesBehind atName owns
          obtain ⟨rfl, list⟩ := list_of_steps makes behind goesOn linesBehind atList owns
          exact ⟨goesOn, ⟨_, behind⟩, .call receiver name list⟩
  | declaration atType atName atList atBody =>
      obtain ⟨rfl, returnType⟩ := option_of_steps makes within goesOn atLines atType owns
      obtain ⟨rfl, name⟩ := child_of_steps makes within goesOn atLines atName owns
      obtain ⟨rfl, list⟩ := list_of_steps makes within goesOn atLines atList owns
      obtain ⟨rfl, body⟩ := option_of_steps makes within goesOn atLines atBody owns
      exact ⟨goesOn, ⟨_, within⟩, .declaration returnType name list body⟩
  | parentheses atInner =>
      obtain ⟨rfl, inner⟩ := padded_of_steps makes within goesOn atLines atInner (by rintro ⟨⟩) rfl owns
      exact ⟨goesOn, ⟨_, within⟩, .parentheses inner⟩
  | collection atList =>
      obtain ⟨rfl, list⟩ := list_of_steps makes within goesOn atLines atList owns
      exact ⟨goesOn, ⟨_, within⟩, .collection list⟩
  | empty => exact ⟨goesOn, ⟨_, within⟩, .empty⟩
  | unknown => exact ⟨goesOn, ⟨_, within⟩, .unknown⟩

end Nodes

/-- Visits that make of the parts of a node what their surroundings tell do so of the node. -/
theorem node_of_steps
    {styles : Styles}
    {child : VisitRelation}
    (reindents : forall view old left new, child view old left new -> Reindents styles view old left new)
    {view left : View}
    {old new : Tree}
    (walked : WalkedNode (indentSteps styles.indents child) view old left new) :
    Reindents styles view old left new := by
  intro goesOn surroundings reads
  cases walked with
  | stopped stopped =>
      rw [goesOn] at stopped
      cases stopped
  | walked _ opens parts closed =>
      obtain rfl := opens
      obtain ⟨rfl, rfl⟩ := closed
      cases parts with
      | mk leading markers form =>
          obtain ⟨rfl, moved⟩ := spaceStep_of_never leading goesOn
          obtain ⟨rfl, rfl⟩ := markers
          obtain ⟨column, within⟩ := inside_node reads old
          have makes (below : List (Tree × Option Nat)) (view : View) (old : Tree) (left : View) (new : Tree)
              (visit : child view old left new) : Makes styles below (Reindented styles) view old left new :=
            fun goesOn _ => reindents _ _ _ _ visit goesOn
          obtain ⟨stop, ⟨_, inner⟩, made⟩ := form_of_steps (makes _) form within goesOn rfl rfl
          obtain ⟨⟨top, last, atTop, -, frames⟩, -⟩ := inner
          have told : ReindentedForm styles untold _ _ _ _ := made.mono (fun _ _ _ _ _ => trivial) fun _ _ _ => id
          refine ⟨?_, ?_, reindented_iff.2 ⟨_, told, ?_⟩⟩
          · rw [View.observed, View.returned, stop]
            rfl
          · rw [View.observed, View.returned, atTop, Cursor.returnTo_frames _ frames.values]
            exact frames
          · rw [moved]
            exact congrArg (old.revise · _ _) column

/-! ## The pass -/

/-- The surroundings that can be read from some frames. -/
def surroundingsOf
    (style : IndentStyle)
    (cursor : TreeCursor) : Surroundings where
  line := lastIndent cursor
  nesting := nearestNesting cursor
  element := givenColumn? cursor
  chain := (callAround? cursor).map (chainColumn style)
  isBody := ownsBlock cursor.values

theorem reads_surroundingsOf
    (style : IndentStyle)
    (cursor : TreeCursor) :
    Reads style cursor (surroundingsOf style cursor) :=
  ⟨rfl, rfl, rfl, rfl, rfl⟩

/-- What follows of a visit from what it makes of the node holds of every visit of a run below any frames. -/
theorem tabsAndIndents_throughout
    {styles : Styles}
    {condition : VisitRelation}
    (implied : forall view old left new, view.stop = .never -> Reindents styles view old left new ->
      condition view old left new)
    (cursor : TreeCursor)
    (tree : Tree) :
    ∃ new left, (Exact.tabsAndIndents styles.indents).run none cursor tree = .ok (some new) ∧
      Throughout (indentSteps styles.indents) condition ⟨.never, cursor⟩ tree left new := by
  let child : VisitRelation := fun view old left new => Reindents styles view old left new ∧
    (view.stop = .never -> left.stop = .never ∧ Throughout (indentSteps styles.indents) condition view old left new)
  have node (view : View) (old : Tree) (left : View) (new : Tree)
      (walked : WalkedNode (indentSteps styles.indents child) view old left new) : child view old left new := by
    have reindents := node_of_steps (fun _ _ _ _ visit => And.left visit) walked
    refine ⟨reindents, fun start => ⟨(reindents start _ (reads_surroundingsOf _ _)).1, ?_⟩⟩
    exact throughout_of_walked areSteps_indentSteps (fun visit => visit.2) start
      (implied _ _ _ _ start reindents) walked
  obtain ⟨_, left, runs, new, rfl, -, visits⟩ :=
    Visitor.run_walks (tabsAndIndents_steps styles.indents child) node tree (.start cursor (.ofTarget none) () ())
  exact ⟨new, viewOf left, congrArg Prod.fst runs, (visits rfl).2⟩

section Below

variable {styles : Styles} {view left : View} {old new : Tree}

/-- Something holds of a visit and of all visits inside it that make of a node what its surroundings tell. -/
abbrev Visits (styles : Styles) : VisitRelation := Throughout (indentSteps styles.indents) (Reindents styles)

/-- The walk through the parts of a node starts behind the space before it. -/
theorem walkedForm_of_visits
    (visit : Visits styles view old left new)
    (goesOn : view.stop = .never) :
    ∃ last, WalkedForm (indentSteps styles.indents (Visits styles))
      ⟨.never, lineCursor styles.indents view.cursor old⟩ old.form last new.form := by
  have walked := visit.walked areSteps_indentSteps
  cases walked with
  | stopped stopped =>
      rw [goesOn] at stopped
      cases stopped
  | walked _ opens parts closes =>
      obtain rfl := opens
      obtain ⟨rfl, rfl⟩ := closes
      cases parts with
      | mk leading markers form =>
          obtain ⟨rfl, -⟩ := spaceStep_of_never leading goesOn
          obtain ⟨rfl, -⟩ := markers
          rw [Tree.form_revise]
          have start := congrArg (View.mk · (lineCursor styles.indents view.cursor old)) goesOn
          exact ⟨_, start ▸ form⟩

/-- A node is visited with these lines among the frames, and with these surroundings. -/
def VisitedBelow
    (styles : Styles)
    (below : List (Tree × Option Nat))
    (around : Surroundings)
    (old new : Tree) : Prop :=
  ∃ view left, view.stop = .never ∧ lines view.cursor = below ∧ Reads styles.indents view.cursor around ∧
    Visits styles view old left new

theorem VisitedBelow.reindented
    {below : List (Tree × Option Nat)}
    {around : Surroundings}
    (visited : VisitedBelow styles below around old new) :
    Reindented styles around old new := by
  obtain ⟨view, left, goesOn, -, reads, visit⟩ := visited
  exact (visit.holds goesOn around reads).2.2

/-- The parts of a node are visited with the line of the node among the frames. -/
theorem VisitedBelow.form
    {below : List (Tree × Option Nat)}
    {around : Surroundings}
    (visited : VisitedBelow styles below around old new) :
    let inner := (old, startColumn? styles around old) :: below
    ReindentedForm styles (measuredBelow styles.indents inner) (VisitedBelow styles inner)
      (around.inside styles old.leading old.form) old.form new.form := by
  intro inner
  obtain ⟨view, left, goesOn, rfl, reads, visit⟩ := visited
  obtain ⟨last, walked⟩ := walkedForm_of_visits visit goesOn
  have makes (view : View) (old : Tree) (left : View) (new : Tree) (visit : Visits styles view old left new) :
      Makes styles inner (VisitedBelow styles inner) view old left new := by
    intro goesOn atLines around reads
    obtain ⟨stop, frames, -⟩ := visit.holds goesOn around reads
    exact ⟨stop, frames, view, left, goesOn, atLines, reads, visit⟩
  obtain ⟨-, within⟩ := inside_node reads old
  exact (form_of_steps makes walked within rfl (lines_lineCursor reads old) rfl).2.2

/-- What passes from a node to its parts holds of every visit below, with the lines among its frames. -/
theorem exists_visit_of_mem_nodes
    {holds : List (Tree × Option Nat) -> Tree -> Tree -> Prop}
    (passes : forall below around old new, Reindented styles around old new -> holds below old new ->
      forall child childNew, child ∈ old.form.children -> childNew ∈ new.form.children ->
        holds ((old, startColumn? styles around old) :: below) child childNew)
    (visit : Visits styles view old left new)
    (goesOn : view.stop = .never)
    (here : holds (lines view.cursor) old new)
    {node : Tree}
    (member : node ∈ new.nodes) :
    ∃ view origin left, view.stop = .never ∧ holds (lines view.cursor) origin node ∧
      Visits styles view origin left node := by
  induction new using Tree.induction generalizing view old left with
  | step head form ih =>
      rw [Tree.nodes_node, List.mem_cons, List.mem_flatMap] at member
      rcases member with rfl | ⟨childNew, isChildNew, below⟩
      · exact ⟨view, old, left, goesOn, here, visit⟩
      · have visited : VisitedBelow styles (lines view.cursor) _ old (.node head form) :=
          ⟨view, left, goesOn, rfl, reads_surroundingsOf styles.indents view.cursor, visit⟩
        have related := visited.reindented
        obtain ⟨child, isChild, _, viewChild, leftChild, goesOnChild, atLines, -, visitChild⟩ :=
          exists_of_forall₂ visited.form.children isChildNew
        refine ih childNew isChildNew visitChild goesOnChild ?_ below
        rw [atLines]
        exact passes _ _ _ _ related here child childNew isChild isChildNew

end Below

end Indents
end Format
end Lossless
