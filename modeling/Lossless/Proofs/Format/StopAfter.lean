import Lossless.Format.Auto
import Lossless.Format.Separate
import Lossless.Proofs.Format.Cut
import Lossless.Proofs.Format.Hooks
import Lossless.Proofs.Java.Written

/-!
# Formatting up to a node

Every pass can be told to stop after a node. It then leaves alone what is printed behind that node: the padding
beside it, the rest of the lists it stands in, and what its ancestors print after it.
-/

namespace Lossless
namespace Format

open Java VisitM

/-! ## Passes that heed the stop -/

theorem changeFor_stopped
    {stop : StopAfter}
    (stopped : stop = .stopped)
    (change : α -> α)
    (value : α) :
    changeFor stop change value = value := by
  rw [stopped]
  rfl

theorem ofSpaces_gaps (change : SpacePlace -> Space -> Space) :
    (Exact.ofSpaces change).toGapVisitor.Walks cutRelation where
  space := fun place space state =>
    ⟨_, state, Pass.unlessStopped_eq .., rfl, fun stopped => changeFor_stopped stopped _ space⟩
  markers := fun markers state => by
    refine ⟨_, state, Pass.ofSpaces_markers_eq .., rfl, fun stopped => ?_⟩
    have same : changeFor state.stop (Exact.mapTrailingComma (change .trailingCommaSuffix)) = id :=
      funext (changeFor_stopped stopped _)
    rw [same, List.map_id, Markers.withMarkers_toList]

/-- A list that is visited in the ordinary way. -/
theorem container_walks_cut
    {visitor : GapVisitor Unit Unit}
    (walks : visitor.Walks cutRelation)
    {visit : Tree -> PassVisit (Option Tree)}
    {place : ContainerPlace}
    {list : Container Tree}
    (children : forall child, child ∈ list.elements -> WalksTo cutRelation.child child (visit child)) :
    Java.Walks (cutRelation.list place) list (visitor.container visit place list) :=
  fun state => (GapVisitor.container_walks walks place children state).mono fun _ _ =>
    cutContainer_of_walked

/-- A pass over spaces heeds the stop. -/
theorem ofSpaces_walks (change : SpacePlace -> Space -> Space) :
    (Exact.ofSpaces change).Walks cutRelation where
  gaps := ofSpaces_gaps change
  list := fun _ _ _ => container_walks_cut (ofSpaces_gaps change)
  before := fun _ _ isNew => .pure ⟨rfl, goesIn_of_isNew isNew, rfl⟩
  after := fun tree _ => .pure ⟨tree, rfl, ⟨rfl, fun _ => rfl⟩, .refl tree⟩
  accepts := rfl
  acceptsSource := rfl
  dispatch := rfl
  depthBound := rfl
  generations := rfl

theorem ofNodes_gaps (change : TreeCursor -> Tree -> Tree) :
    (Pass.ofNodes change).toGapVisitor.Walks cutRelation where
  space := fun _ _ _ => .pure ⟨rfl, fun _ => rfl⟩
  markers := fun markers state => ⟨markers, state, markers_eq_self rfl markers state, rfl, fun _ => rfl⟩

/-- A pass over nodes heeds the stop, if it keeps the kind and the identity of a node. -/
theorem ofNodes_walks
    {change : TreeCursor -> Tree -> Tree}
    (isRevision : forall cursor tree, IsRevision tree (change cursor tree)) :
    (Pass.ofNodes change).Walks cutRelation where
  gaps := ofNodes_gaps change
  list := fun _ _ _ => container_walks_cut (ofNodes_gaps change)
  before := fun _ _ isNew => .pure ⟨rfl, goesIn_of_isNew isNew, rfl⟩
  after := fun tree state => by
    refine .bind_eq rfl (.bind_eq (Pass.unlessStopped_eq tree (change state.cursor) state) (.pure ?_))
    refine ⟨_, rfl, ⟨rfl, fun stopped => changeFor_stopped stopped _ tree⟩, ?_⟩
    unfold changeFor
    split
    · exact .refl tree
    · exact isRevision ..
  accepts := rfl
  acceptsSource := rfl
  dispatch := rfl
  depthBound := rfl
  generations := rfl

/-! ## The passes over nodes -/

theorem hoistReturnType_isRevision (tree : Tree) : IsRevision tree (hoistReturnType tree) := by
  unfold hoistReturnType
  split
  · next found =>
      split
      · exact .refl tree
      · exact .revise (by rw [found]; exact ⟨rfl, fun _ _ => rfl⟩) _ _
  · exact .refl tree

theorem separateNode_isRevision
    (cursor : TreeCursor)
    (tree : Tree) :
    IsRevision tree (separateNode cursor tree) := by
  unfold separateNode
  split
  · next found => exact .revise (by rw [found]; exact ⟨rfl, fun _ _ => rfl⟩) _ _
  · next found => exact .revise (by rw [found]; exact ⟨rfl, fun _ _ => rfl⟩) _ _
  · exact .refl tree

theorem spaceNode_isRevision
    (style : SpacingStyle)
    (cursor : TreeCursor)
    (tree : Tree) :
    IsRevision tree (spaceNode style cursor tree) := by
  have sameForm {form : Form Tree} (ending : SameEnding tree.form form) :
      IsRevision tree (tree.withForm form) := .revise ending _ _
  unfold spaceNode
  dsimp only
  split
  · next found => exact sameForm (by rw [found]; exact ⟨rfl, fun _ _ => rfl⟩)
  · next found => exact sameForm (by rw [found]; exact ⟨rfl, fun _ _ => rfl⟩)
  · next found => exact sameForm (by rw [found]; exact ⟨rfl, fun _ _ => rfl⟩)
  · next found => exact sameForm (by rw [found]; exact ⟨rfl, fun _ _ => rfl⟩)
  · next found => exact sameForm (by rw [found]; exact ⟨rfl, fun _ _ => rfl⟩)
  · split
    · exact .withLeading tree _
    · exact .refl tree
  · next found =>
      split
      · exact sameForm (by rw [found]; exact ⟨rfl, fun _ _ => rfl⟩)
      · exact .refl tree
  · split
    · exact .withLeading tree _
    · exact .refl tree
  · exact .refl tree

/-! ## The indentation -/

namespace Indents

variable (style : IndentStyle)

/-- The hook for spaces leaves the stop alone, and after the stop everything. -/
theorem visitSpace_cuts
    (place : SpacePlace)
    (space : Space)
    (state : VisitState Tree PaddingFrame Unit Unit) :
    (Exact.visitSpace style place space).Yields state fun value left =>
      UnlessStopped state.stop space left.stop value := by
  by_cases stopped : state.stop.isStopped = true
  · exact ⟨space, state, visitSpace_of_stopped style stopped place space, rfl, fun _ => rfl⟩
  · rw [Bool.not_eq_true] at stopped
    refine ⟨_, _, visitSpace_eq style stopped place space, rfl, fun atStop => ?_⟩
    rw [atStop] at stopped
    cases stopped

theorem visitElements_cuts
    {visit : Tree -> PassVisit (Option Tree)}
    {place : ElementPlace}
    {columns : ListColumns}
    {list : List (RightPadded Tree)}
    (children : forall child, child ∈ RightPadded.elements list ->
      WalksTo cutRelation.child child (visit child))
    (isFirst : Bool)
    (target : Nat)
    (state : VisitState Tree PaddingFrame Unit Unit) :
    (Exact.visitElements style visit place columns isFirst target list).Yields state fun list' left =>
      CutElements state.stop list left.stop list' := by
  induction list generalizing isFirst target state with
  | nil => exact .pure .nil
  | cons padded rest ih =>
      obtain ⟨_, left, visited, element, rfl, cut⟩ :=
        children padded.element (by simp [RightPadded.elements]) (elementState place target state)
      have others := ih fun child member => children child (by simp_all [RightPadded.elements])
      refine visitElements_cons style visited ((others _ _ _).mono fun list' last cutRest => ?_)
      refine .cons ⟨?_, fun stopped => ?_⟩ cutRest
      · unfold paddedAfter
        split <;> exact cut
      · have isStopped : left.stop.isStopped = true := by
          rw [show left.stop = .stopped from stopped]
          rfl
        rw [paddedAfter, if_pos isStopped]
        exact ⟨rfl, rfl⟩

theorem visitList_cuts
    {visit : Tree -> PassVisit (Option Tree)}
    {place : ContainerPlace}
    {list : Container Tree}
    (children : forall child, child ∈ list.elements -> WalksTo cutRelation.child child (visit child)) :
    Java.Walks (cutRelation.list place) list (Exact.visitList style visit place list) := by
  intro state
  obtain ⟨before, opened, atBefore, sameStop, same⟩ :=
    visitSpace_cuts style place.before list.before (state.entered (.padding (.container place)))
  refine visitList_yields style atBefore ((visitElements_cuts style children _ _ _).mono
    fun padded left cut => ⟨same, ?_, fun _ => rfl⟩)
  rw [sameStop] at cut
  exact cut

end Indents

/-- The indentation heeds the stop. -/
theorem tabsAndIndents_walks (style : IndentStyle) : (Exact.tabsAndIndents style).Walks cutRelation where
  gaps := {
    space := Indents.visitSpace_cuts style
    markers := fun markers state => ⟨markers, state, markers_eq_self rfl markers state, rfl, fun _ => rfl⟩ }
  list := fun _ _ _ => Indents.visitList_cuts style
  before := fun tree state isNew => by
    exact ⟨some tree, _, Indents.enterNode_eq style tree state, rfl, Indents.goesIn_of_entered style isNew, rfl⟩
  after := fun tree _ => .pure ⟨tree, rfl, ⟨rfl, fun _ => rfl⟩, .refl tree⟩
  accepts := rfl
  acceptsSource := rfl
  dispatch := rfl
  depthBound := rfl
  generations := rfl

/-! ## Runs -/

/-- The passes that can be told to stop after a node. -/
def stoppable (styles : Styles) : List Pass :=
  [normalizeFormat, blankLines styles.blankLines, spaces styles.spacing, tabsAndIndents styles.indents,
    tabsOrSpaces styles.indents, trailingWhitespace, lineBreaks styles.lineBreaks, minimumViableSpacing]

/-- Unless a sum does not fit, the pass does what one does that heeds the stop at every node. -/
def Pass.HeedsStop (pass : Pass) : Prop :=
  exists exact, Visitor.Refines pass exact ∧ exact.Walks cutRelation

theorem stoppable_heedStop
    {styles : Styles}
    {pass : Pass}
    (member : pass ∈ stoppable styles) :
    pass.HeedsStop := by
  simp only [stoppable, List.mem_cons, List.not_mem_nil, or_false] at member
  rcases member with rfl | rfl | rfl | rfl | rfl | rfl | rfl | rfl
  · exact ⟨_, Exact.ofNodes_refines _, ofNodes_walks fun _ => hoistReturnType_isRevision⟩
  · exact ⟨_, Exact.blankLines_refines _, ofSpaces_walks _⟩
  · exact ⟨_, Exact.ofNodes_refines _, ofNodes_walks (spaceNode_isRevision _)⟩
  · exact ⟨_, Exact.tabsAndIndents_refines _, tabsAndIndents_walks _⟩
  · exact ⟨_, Exact.tabsOrSpaces_refines _, ofSpaces_walks _⟩
  · exact ⟨_, Exact.ofSpaces_refines fun _ _ => .ok _, ofSpaces_walks _⟩
  · exact ⟨_, Exact.ofSpaces_refines fun _ _ => .ok _, ofSpaces_walks _⟩
  · exact ⟨_, Exact.ofNodes_refines _, ofNodes_walks separateNode_isRevision⟩

/-- A pass gives a tree that is cut off behind the target. -/
theorem run_cuts
    {pass : Pass}
    (heeds : pass.HeedsStop)
    {stopAfter : Option Stamp}
    {parent : TreeCursor}
    {tree : Tree}
    (fits : overflows (pass.run stopAfter parent tree) = false) :
    exists new left, pass.run stopAfter parent tree = .ok (some new) ∧
      CutTree (.ofTarget stopAfter) tree left new := by
  obtain ⟨exact, refines, walks⟩ := heeds
  obtain ⟨_, left, outcome, new, rfl, cut⟩ :=
    Visitor.run_walks walks (fun _ _ _ _ => cutTree_of_walked) tree (.start parent (.ofTarget stopAfter) () ())
  refine ⟨new, left.stop, ?_, cut⟩
  rw [Exact.run_eq refines fits, Pass.run, VisitM.runFrom, outcome]

/-- What a tree of a dialect has printed behind the end of a node. -/
structure PrintsBehind
    (dialect : Dialect)
    (target : Stamp)
    (after : Pieces)
    (tree : Tree) : Prop where
  inDialect : tree.dialect = dialect
  pieces : exists before, tree.pieces dialect = before ++ .finish target :: after

namespace PrintsBehind

variable {dialect : Dialect} {target : Stamp} {after : Pieces} {tree new : Tree}

theorem printTrimmed_eq (behind : PrintsBehind dialect target after tree) :
    exists front, tree.printTrimmed = front ++ Piece.renderAll dialect.delimiters .hidden after := by
  obtain ⟨rfl, before, pieces⟩ := behind
  refine ⟨Piece.renderAll tree.dialect.delimiters .hidden (before ++ [.finish target]), ?_⟩
  rw [Tree.printTrimmed, Tree.printIn, pieces, ← Piece.renderAll_append]
  simp

/-- A tree that is cut off behind the target prints the same there. -/
theorem of_cut
    {left : StopAfter}
    (behind : PrintsBehind dialect target after tree)
    (cut : CutTree (.pending target) tree left new) :
    PrintsBehind dialect target after new := by
  obtain ⟨rfl, before, pieces⟩ := behind
  exact ⟨congrArg (·.getD .java) (cut.ending.dialect? new.head tree.head),
    (cut.pieces tree.dialect).behind_eq pieces⟩

/-- Passes that are run one after the other, all with the same stop. -/
theorem runPasses
    {passes : List Pass}
    (heed : forall pass, pass ∈ passes -> pass.HeedsStop)
    (behind : PrintsBehind dialect target after tree)
    {parent : TreeCursor}
    (fits : overflows (runPasses (some target) parent passes tree) = false) :
    exists new, runPasses (some target) parent passes tree = .ok new ∧
      PrintsBehind dialect target after new := by
  induction passes generalizing tree with
  | nil => exact ⟨tree, rfl, behind⟩
  | cons pass rest ih =>
      rw [Format.runPasses] at fits ⊢
      obtain ⟨middle, left, outcome, cut⟩ := run_cuts (heed pass List.mem_cons_self) (fits_of_bind fits)
      rw [outcome] at fits ⊢
      exact ih (fun pass member => heed pass (List.mem_cons_of_mem _ member)) (behind.of_cut cut) fits

end PrintsBehind

theorem passes_subset_stoppable
    {styles : Styles}
    {pass : Pass}
    (member : pass ∈ passes styles) :
    pass ∈ stoppable styles := by
  unfold passes at member
  split at member <;> simp only [stoppable] <;> grind

/--
A node splits the printed tree. A pass that is told to stop after the node, and likewise a formatting run, has a result
unless a sum does not fit, and changes nothing that is printed behind the node.
-/
theorem stopAfter_isCleanCut
    {tree node : Tree}
    (member : node ∈ tree.nodes)
    (styles : Styles)
    (configure : Styles -> Styles)
    (parent : TreeCursor) :
    (exists front rest, tree.SplitsBehind node front rest) ∧
      forall front rest, tree.SplitsBehind node front rest ->
        (forall pass, pass ∈ stoppable styles -> overflows (pass.run (some node.id) parent tree) = false ->
          exists new front', pass.run (some node.id) parent tree = .ok (some new) ∧
            new.printTrimmed = front' ++ rest) ∧
        (overflows (autoFormat configure (some node.id) parent tree) = false ->
          exists new front', autoFormat configure (some node.id) parent tree = .ok new ∧
            new.printTrimmed = front' ++ rest) := by
  refine ⟨Tree.exists_splitsBehind member, ?_⟩
  rintro _ _ ⟨before, after, pieces, rfl, rfl⟩
  have behind : PrintsBehind tree.dialect node.id after tree := by
    refine ⟨rfl, before ++ node.unfinished tree.dialect, ?_⟩
    rw [pieces, Tree.pieces_eq_unfinished]
    simp
  constructor
  · intro pass isStoppable fits
    obtain ⟨new, left, outcome, cut⟩ := run_cuts (stoppable_heedStop isStoppable) fits
    obtain ⟨front', printed⟩ := (behind.of_cut cut).printTrimmed_eq
    exact ⟨new, front', outcome, printed⟩
  · intro fits
    obtain ⟨new, outcome, behindNew⟩ := behind.runPasses
      (fun pass isPass => stoppable_heedStop (passes_subset_stoppable isPass)) fits
    obtain ⟨front', printed⟩ := behindNew.printTrimmed_eq
    exact ⟨new, front', outcome, printed⟩

/-- A name, numbered. -/
def numberedName
    (number : Nat)
    (name : Text) : Tree :=
  .node ⟨.settled number, .settled number, .empty, .empty⟩ (.identifier name none)

/-- An assignment without blanks, numbered. -/
def tightAssignment : Tree :=
  .node ⟨.settled 0, .settled 0, .empty, .empty⟩
    (.assignment (numberedName 1 ['x']) ⟨.empty, numberedName 2 ['y'], .empty⟩ none)

/-- Spacing that stops after the target of an assignment puts no blanks around the operator. -/
theorem spaces_stopsAfter_name :
    numberedName 1 ['x'] ∈ tightAssignment.nodes ∧
      tightAssignment.SplitsBehind (numberedName 1 ['x']) ['x'] ['=', 'y'] ∧
      exists new front', (spaces {}).run (some (.settled 1)) .root tightAssignment = .ok (some new) ∧
        new.printTrimmed = front' ++ ['=', 'y'] := by
  have member : numberedName 1 ['x'] ∈ tightAssignment.nodes := by
    simp [tightAssignment, Tree.nodes_node, Form.children, numberedName]
  have split : tightAssignment.SplitsBehind (numberedName 1 ['x']) ['x'] ['=', 'y'] :=
    ⟨[.space .assignmentPrefix .empty, .start (.settled 0) .empty],
      .space .assignmentOperatorPrefix .empty :: .token ['='] ::
        ((numberedName 2 ['y']).pieces .java ++ [.finish (.settled 0)]), rfl, rfl, rfl⟩
  refine ⟨member, split, ?_⟩
  exact ((stopAfter_isCleanCut member {} id .root).2 _ _ split).1 (spaces {}) (by simp [stoppable]) (by decide +kernel)

end Format
end Lossless
