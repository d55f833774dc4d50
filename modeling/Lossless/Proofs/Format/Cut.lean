import Lossless.Format.Pass
import Lossless.Proofs.Java.Written
import Lossless.Proofs.Visit.Walk

/-!
# What a stop leaves alone

A visit that stops after a node leaves alone whatever is printed behind that node. `Cut` says so of printed
pieces: before the target they may change at will, and from the end of the target on they stay. It is carried
from the stop before a walk to the stop after it, and so it can be put together along the walk: what has no
target in it leaves the stop pending, and what comes after the stop does not change at all.

What is printed behind a node also depends on the kind of the node, which decides whether a semicolon follows,
and so no pass may change that.
-/

namespace Lossless

namespace Java

/-- The pieces of a node up to its end. -/
def Tree.unfinished
    (dialect : Dialect)
    (tree : Tree) : Pieces :=
  .space tree.form.leadingPlace tree.leading :: .start tree.id tree.markers ::
    Pieces.form dialect (tree.form.map (printed dialect))

theorem Tree.pieces_eq_unfinished
    (dialect : Dialect)
    (tree : Tree) :
    tree.pieces dialect = tree.unfinished dialect ++ [.finish tree.id] := by
  obtain ⟨head, form⟩ := tree
  rw [pieces_node]
  rfl

end Java

namespace Format

open Java

/-! ## Printed pieces -/

/-- Nothing is changed in the pieces behind the target of the stop. -/
inductive Cut : StopAfter -> Pieces -> StopAfter -> Pieces -> Prop
  | never {old new} : Cut .never old .never new
  | ahead {target old new} :
      .finish target ∉ old -> Cut (.pending target) old (.pending target) new
  | here {target before before' after} :
      .finish target ∉ before ->
      Cut (.pending target) (before ++ .finish target :: after) .stopped
        (before' ++ .finish target :: after)
  | behind {pieces} : Cut .stopped pieces .stopped pieces

/-- A step that does not reach the end of a node, and changes nothing after the stop. -/
def UnlessStopped
    (stop : StopAfter)
    (old : α)
    (left : StopAfter)
    (new : α) : Prop :=
  left = stop ∧ (stop = .stopped -> new = old)

namespace Cut

variable {stop middle left : StopAfter} {old new oldRest newRest : Pieces}

/-- After the stop there is no other stop. -/
theorem isStopped
    (cut : Cut stop old left new)
    (stopped : stop = .stopped) :
    left = .stopped := by
  cases cut with
  | behind => rfl
  | _ => cases stopped

theorem append
    (first : Cut stop old middle new)
    (rest : Cut middle oldRest left newRest) :
    Cut stop (old ++ oldRest) left (new ++ newRest) := by
  cases first with
  | never =>
      cases rest
      exact .never
  | ahead absent =>
      cases rest with
      | ahead absentRest => exact .ahead (by simp [absent, absentRest])
      | here absentRest =>
          rw [← List.append_assoc, ← List.append_assoc]
          exact .here (by simp [absent, absentRest])
  | here absent =>
      cases rest
      rw [List.append_assoc, List.append_assoc, List.cons_append]
      exact .here absent
  | behind =>
      cases rest
      exact .behind

/-- Pieces in which no node ends. -/
theorem ofQuiet
    (quiet : forall target, .finish target ∉ old)
    (step : UnlessStopped stop old left new) :
    Cut stop old left new := by
  obtain ⟨rfl, same⟩ := step
  cases left with
  | never => exact .never
  | pending target => exact .ahead (quiet target)
  | stopped =>
      rw [same rfl]
      exact .behind

theorem space
    {place : SpacePlace}
    {before before' : Space}
    (step : UnlessStopped stop before middle before')
    (rest : Cut middle old left new) :
    Cut stop (.space place before :: old) left (.space place before' :: new) := by
  have first : Cut stop [.space place before] middle [.space place before'] :=
    ofQuiet (by simp) ⟨step.1, fun stopped => by rw [step.2 stopped]⟩
  exact first.append rest

theorem token
    {text : Text}
    (rest : Cut stop old left new) :
    Cut stop (.token text :: old) left (.token text :: new) := by
  have first : Cut stop [.token text] stop [.token text] := ofQuiet (by simp) ⟨rfl, fun _ => rfl⟩
  exact first.append rest

theorem nil : Cut stop [] stop [] := ofQuiet (by simp) ⟨rfl, fun _ => rfl⟩

/-- A node ends; what is in it may have been changed once more before the stop. -/
theorem finish
    {id : Stamp}
    {changed : Pieces}
    (cut : Cut stop old left new)
    (same : left = .stopped -> changed = new) :
    Cut stop (old ++ [.finish id]) (left.observe id) (changed ++ [.finish id]) := by
  cases cut with
  | never => exact .never
  | ahead absent =>
      rename_i target
      unfold StopAfter.observe
      split
      · next reached =>
          obtain rfl : target = id := StopAfter.pending.inj reached
          exact .here absent
      · next passed =>
          refine .ahead ?_
          rw [List.mem_append, List.mem_singleton, not_or]
          exact ⟨absent, fun equal => passed (congrArg StopAfter.pending (Piece.finish.inj equal))⟩
  | here absent =>
      rw [same rfl, List.append_assoc, List.append_assoc]
      exact .here absent
  | behind =>
      rw [same rfl]
      exact .behind

/-- Wherever the target ends, what comes behind is the same as before. -/
theorem behind_eq
    {target : Stamp}
    {before after : Pieces}
    (cut : Cut (.pending target) old left new)
    (split : old = before ++ .finish target :: after) :
    exists before', new = before' ++ .finish target :: after := by
  cases cut with
  | ahead absent => exact absurd (by simp [split]) absent
  | here absent =>
      rename_i first first' rest
      rcases List.append_eq_append_iff.1 split with ⟨more, rfl, same⟩ | ⟨more, rfl, same⟩
      · cases more with
        | nil => exact ⟨first', by rw [same]; rfl⟩
        | cons piece more =>
            obtain ⟨-, rfl⟩ := List.cons.inj same
            exact ⟨first' ++ .finish target :: more, by simp⟩
      · cases more with
        | nil => exact ⟨first', by rw [same]; rfl⟩
        | cons piece more =>
            obtain ⟨rfl, -⟩ := List.cons.inj same
            simp at absent

end Cut

/-! ## Nodes and paddings -/

/-- Forms after which the same is printed. -/
structure SameEnding (old new : Form Tree) : Prop where
  isSelfTerminated : new.isSelfTerminated = old.isSelfTerminated
  dialect? : forall head head', (Java.Tree.node head new).dialect? = (Java.Tree.node head' old).dialect?

/-- The same node, after which the same is printed. -/
structure IsRevision (old new : Tree) : Prop where
  id : new.id = old.id
  ending : SameEnding old.form new.form

namespace IsRevision

theorem refl (tree : Tree) : IsRevision tree tree := ⟨rfl, rfl, fun _ _ => rfl⟩

theorem revise
    {tree : Tree}
    {form : Form Tree}
    (ending : SameEnding tree.form form)
    (leading : Space)
    (markers : Markers Space) :
    IsRevision tree (tree.revise leading markers form) :=
  ⟨Tree.id_revise .., by rwa [Tree.form_revise]⟩

theorem withLeading
    (tree : Tree)
    (leading : Space) :
    IsRevision tree (tree.withLeading leading) :=
  revise ⟨rfl, fun _ _ => rfl⟩ _ _

end IsRevision

/-- Nothing is changed behind the target in a node. -/
structure CutTree
    (stop : StopAfter)
    (old : Tree)
    (left : StopAfter)
    (new : Tree) : Prop where
  pieces : forall dialect, Cut stop (old.pieces dialect) left (new.pieces dialect)
  ending : SameEnding old.form new.form
  same : stop = .stopped -> new = old

theorem CutTree.isStopped
    {stop left : StopAfter}
    {old new : Tree}
    (cut : CutTree stop old left new)
    (stopped : stop = .stopped) :
    left = .stopped :=
  (cut.pieces .java).isStopped stopped

/-- Nothing is changed behind the target in a padded node. -/
structure CutPadded
    (stop : StopAfter)
    (old : RightPadded Tree)
    (left : StopAfter)
    (new : RightPadded Tree) : Prop where
  element : CutTree stop old.element left new.element
  padding : left = .stopped -> new.after = old.after ∧ new.markers = old.markers

/-- Nothing is changed behind the target in a list of padded nodes. -/
inductive CutElements :
    StopAfter -> List (RightPadded Tree) -> StopAfter -> List (RightPadded Tree) -> Prop
  | nil {stop} : CutElements stop [] stop []
  | cons {stop middle left first first' rest rest'} :
      CutPadded stop first middle first' -> CutElements middle rest left rest' ->
        CutElements stop (first :: rest) left (first' :: rest')

/-- Nothing is changed behind the target in a delimited list. -/
structure CutContainer
    (stop : StopAfter)
    (old : Container Tree)
    (left : StopAfter)
    (new : Container Tree) : Prop where
  before : stop = .stopped -> new.before = old.before
  elements : CutElements stop old.padded left new.padded
  markers : left = .stopped -> new.markers = old.markers

section Paddings

variable {stop left : StopAfter} {dialect : Dialect} {place : ElementPlace}

theorem CutPadded.same
    {old new : RightPadded Tree}
    (cut : CutPadded stop old left new)
    (stopped : stop = .stopped) :
    new = old := by
  obtain ⟨after, markers⟩ := cut.padding (cut.element.isStopped stopped)
  obtain ⟨element', after', markers'⟩ := new
  rw [show element' = old.element from cut.element.same stopped, show after' = old.after from after,
    show markers' = old.markers from markers]

theorem CutPadded.pieces_statement
    {old new : RightPadded Tree}
    (cut : CutPadded stop old left new) :
    Cut stop (Pieces.statement dialect place (old.map (Tree.printed dialect))) left
      (Pieces.statement dialect place (new.map (Tree.printed dialect))) := by
  have noPrinted (padded : RightPadded Tree) :
      (padded.map (Tree.printed dialect)).map Prod.fst = padded := rfl
  refine (cut.element.pieces dialect).append (.ofQuiet ?_ ⟨rfl, fun stopped => ?_⟩)
  · intro target
    split <;> simp [Pieces.symbol]
  · obtain ⟨after, markers⟩ := cut.padding stopped
    simp only [noPrinted, RightPadded.after_map, Dialect.needsSemicolon, after, markers,
      cut.element.ending.isSelfTerminated]

theorem CutElements.isStopped
    {old new : List (RightPadded Tree)}
    (cut : CutElements stop old left new)
    (stopped : stop = .stopped) :
    left = .stopped := by
  induction cut with
  | nil => exact stopped
  | cons first _ ih => exact ih (first.element.isStopped stopped)

theorem CutElements.same
    {old new : List (RightPadded Tree)}
    (cut : CutElements stop old left new)
    (stopped : stop = .stopped) :
    new = old := by
  induction cut with
  | nil => rfl
  | cons first _ ih => rw [first.same stopped, ih (first.element.isStopped stopped)]

theorem CutElements.pieces_statements
    {old new : List (RightPadded Tree)}
    (cut : CutElements stop old left new) :
    Cut stop ((old.map (·.map (Tree.printed dialect))).flatMap (Pieces.statement dialect place)) left
      ((new.map (·.map (Tree.printed dialect))).flatMap (Pieces.statement dialect place)) := by
  induction cut with
  | nil => exact .nil
  | cons first _ ih =>
      rw [List.map_cons, List.map_cons, List.flatMap_cons, List.flatMap_cons]
      exact first.pieces_statement.append ih

theorem CutElements.pieces_listElements
    {old new : List (RightPadded Tree)}
    (cut : CutElements stop old left new) :
    Cut stop (Pieces.listElements place (old.map (·.map (Tree.printed dialect)))) left
      (Pieces.listElements place (new.map (·.map (Tree.printed dialect)))) := by
  induction cut with
  | nil => exact .nil
  | @cons stop middle left first first' rest rest' cutFirst others ih =>
      have after : UnlessStopped middle first.after middle first'.after :=
        ⟨rfl, fun stopped => (cutFirst.padding stopped).1⟩
      cases others with
      | nil =>
          refine (cutFirst.element.pieces dialect).append (.space after (.ofQuiet ?_ ⟨rfl, fun stopped => ?_⟩))
          · intro target
            unfold Pieces.trailingComma
            split <;> simp [Pieces.symbol]
          · rw [RightPadded.markers_map, RightPadded.markers_map, (cutFirst.padding stopped).2]
      | cons => exact (cutFirst.element.pieces dialect).append (.space after (.token ih))

theorem CutContainer.isStopped
    {old new : Container Tree}
    (cut : CutContainer stop old left new)
    (stopped : stop = .stopped) :
    left = .stopped :=
  cut.elements.isStopped stopped

theorem CutContainer.same
    {old new : Container Tree}
    (cut : CutContainer stop old left new)
    (stopped : stop = .stopped) :
    new = old := by
  obtain ⟨before', padded', markers'⟩ := new
  rw [show before' = old.before from cut.before stopped, show padded' = old.padded from cut.elements.same stopped,
    show markers' = old.markers from cut.markers (cut.isStopped stopped)]

theorem CutContainer.pieces
    {place : ContainerPlace}
    {delimiters : Text × Text}
    {old new : Container Tree}
    (cut : CutContainer stop old left new) :
    Cut stop (Pieces.container place delimiters (old.map (Tree.printed dialect))) left
      (Pieces.container place delimiters (new.map (Tree.printed dialect))) :=
  .space ⟨rfl, cut.before⟩ (.token (cut.elements.pieces_listElements.append (.token .nil)))

end Paddings

/-! ## Walks -/

/-- How a pass that heeds the stop changes the parts of a node. -/
def cutRelation : WalkRelation where
  space := fun _ view old left new => UnlessStopped view.stop old left.stop new
  markers := fun view old left new => UnlessStopped view.stop old left.stop new
  child := fun view old left new => CutTree view.stop old left.stop new
  list := fun _ view old left new => CutContainer view.stop old left.stop new
  opens := fun view _ left => left.stop = view.stop
  closes := fun view old left new =>
    UnlessStopped view.stop old left.stop new ∧ IsRevision old new

section Walked

variable {view left : View} {dialect : Dialect}

theorem cutPadded_of_walked
    {place : ElementPlace}
    {old new : RightPadded Tree}
    (walked : WalkedElement cutRelation place view old left new) :
    CutPadded view.stop old left.stop new := by
  cases walked with
  | mk element after markers =>
      obtain ⟨sameStop, sameAfter⟩ := after
      obtain ⟨lastStop, sameMarkers⟩ := markers
      refine ⟨?_, fun stopped => ⟨sameAfter ?_, sameMarkers ?_⟩⟩
      · rw [lastStop, sameStop]
        exact element
      · rw [← sameStop, ← lastStop, stopped]
      · rw [← lastStop, stopped]

theorem cutElements_of_walked
    {place : ElementPlace}
    {old new : List (RightPadded Tree)}
    (walked : WalkedElements cutRelation place view old left new) :
    CutElements view.stop old left.stop new := by
  induction walked with
  | nil => exact .nil
  | cons first _ ih => exact .cons (cutPadded_of_walked first) ih

theorem cutContainer_of_walked
    {place : ContainerPlace}
    {old new : Container Tree}
    (walked : WalkedContainer cutRelation place view old left new) :
    CutContainer view.stop old left.stop new := by
  cases walked with
  | mk before elements markers =>
      obtain ⟨sameStop, sameBefore⟩ := before
      obtain ⟨lastStop, sameMarkers⟩ := markers
      have cut := cutElements_of_walked elements
      rw [sameStop] at cut
      refine ⟨sameBefore, ?_, fun stopped => sameMarkers ?_⟩
      · rw [lastStop]
        exact cut
      · rw [← lastStop, stopped]

/-- The pieces of an operand, with a sign between the space and the operand. -/
theorem cutOperand_of_walked
    {place : OperandPlace}
    {sign : Text}
    {old new : LeftPadded Tree}
    (walked : WalkedOperand cutRelation place view old left new) :
    Cut view.stop (.space place.before old.before :: .token sign :: old.element.pieces dialect) left.stop
      (.space place.before new.before :: .token sign :: new.element.pieces dialect) := by
  cases walked with
  | mk before element markers =>
      rw [markers.1]
      exact .space before (.token (element.pieces dialect))

theorem cutOption_of_walked
    {old new : Option Tree}
    (walked : WalkedOption cutRelation.child view old left new) :
    (forall dialect, Cut view.stop (Pieces.option (old.map (Tree.printed dialect))) left.stop
        (Pieces.option (new.map (Tree.printed dialect)))) ∧
      (view.stop = .stopped -> left.stop = .stopped ∧ new = old) := by
  cases walked with
  | none => exact ⟨fun _ => .nil, fun stopped => ⟨stopped, rfl⟩⟩
  | some child =>
      exact ⟨child.pieces, fun stopped => ⟨child.isStopped stopped, congrArg some (child.same stopped)⟩⟩

theorem cutReceiver_of_walked
    {old new : Option (RightPadded Tree)}
    (walked : WalkedOption (WalkedElement cutRelation .methodSelect) view old left new) :
    (forall dialect, Cut view.stop (Pieces.receiver (old.map (·.map (Tree.printed dialect)))) left.stop
        (Pieces.receiver (new.map (·.map (Tree.printed dialect))))) ∧
      (view.stop = .stopped -> left.stop = .stopped ∧ new = old) := by
  cases walked with
  | none => exact ⟨fun _ => .nil, fun stopped => ⟨stopped, rfl⟩⟩
  | some element =>
      have cut := cutPadded_of_walked element
      refine ⟨fun dialect => (cut.element.pieces dialect).append
        (.space ⟨rfl, fun stopped => (cut.padding stopped).1⟩ (.token .nil)), fun stopped => ?_⟩
      exact ⟨cut.element.isStopped stopped, congrArg some (cut.same stopped)⟩

/-- Nothing is changed behind the target in the parts of a node. -/
theorem cutForm_of_walked
    {old new : Form Tree}
    (walked : WalkedForm cutRelation view old left new) :
    Cut view.stop (Pieces.form dialect (old.map (Tree.printed dialect))) left.stop
      (Pieces.form dialect (new.map (Tree.printed dialect))) := by
  cases walked with
  | compilationUnit statements eof =>
      exact (cutElements_of_walked statements).pieces_statements.append (.space eof .nil)
  | block statements closing =>
      have atStatements := cutElements_of_walked statements
      cases dialect with
      | java =>
          exact .token ((atStatements.pieces_statements.append (.space closing .nil)).append (.token .nil))
      | python => exact .token (atStatements.pieces_statements.append (.space closing .nil))
  | conditional condition consequence alternative =>
      have atConsequence := cutPadded_of_walked consequence
      exact .token (((condition.pieces dialect).append atConsequence.pieces_statement).append
        ((cutOption_of_walked alternative).1 dialect))
  | otherwise body => exact .token (cutPadded_of_walked body).pieces_statement
  | returns value => exact .token ((cutOption_of_walked value).1 dialect)
  | assignment target value =>
      exact (target.pieces dialect).append (cutOperand_of_walked value)
  | binary leftTree operator right =>
      cases operator with
      | mk before markers =>
          have atRight := right.pieces dialect
          rw [markers.1] at atRight
          exact (leftTree.pieces dialect).append (.space before (.token atRight))
  | identifier => exact .token .nil
  | literal => exact .token .nil
  | fieldAccess target name => exact (target.pieces dialect).append (cutOperand_of_walked name)
  | call receiver name list =>
      exact (((cutReceiver_of_walked receiver).1 dialect).append (name.pieces dialect)).append list.pieces
  | declaration returnType name list body =>
      have atType := (cutOption_of_walked returnType).1 dialect
      have atBody := (cutOption_of_walked body).1 dialect
      cases dialect with
      | java => exact ((atType.append (name.pieces _)).append list.pieces).append atBody
      | python => exact .token (((atType.append (name.pieces _)).append list.pieces).append atBody)
  | parentheses inner =>
      have atInner := cutPadded_of_walked inner
      exact .token ((atInner.element.pieces dialect).append
        (.space ⟨rfl, fun stopped => (atInner.padding stopped).1⟩ (.token .nil)))
  | collection list => exact list.pieces
  | empty => exact .nil
  | unknown => exact .token .nil

/-- A walk does not change what is printed after a node. -/
theorem sameEnding_of_walked
    {old new : Form Tree}
    (walked : WalkedForm cutRelation view old left new) :
    SameEnding old new := by
  cases walked with
  | declaration _ _ _ body => cases body <;> exact ⟨rfl, fun _ _ => rfl⟩
  | _ => exact ⟨rfl, fun _ _ => rfl⟩

theorem leadingPlace_of_walked
    {old new : Form Tree}
    (walked : WalkedForm cutRelation view old left new) :
    new.leadingPlace = old.leadingPlace := by
  cases walked <;> rfl

/-- Nothing is changed behind the target in a node that is walked through, up to its end. -/
theorem cutParts_of_walked
    {old new : Tree}
    (walked : WalkedParts cutRelation view old left new) :
    (forall dialect, Cut view.stop (old.unfinished dialect) left.stop (new.unfinished dialect)) ∧
      SameEnding old.form new.form ∧ new.id = old.id := by
  cases walked with
  | mk atLeading atMarkers walked =>
      rename_i first second leading markers form
      have ending := sameEnding_of_walked walked
      have place := leadingPlace_of_walked walked
      refine ⟨fun dialect => ?_, ?_, Tree.id_revise ..⟩
      · have atStart : UnlessStopped first.stop [Piece.start old.id old.markers] second.stop
            [Piece.start (π := SpacePlace) old.id markers] :=
          ⟨atMarkers.1, fun stopped => by rw [atMarkers.2 stopped]⟩
        rw [Tree.unfinished, Tree.unfinished, Tree.leading_revise, Tree.markers_revise, Tree.form_revise,
          Tree.id_revise, place]
        exact .space atLeading ((Cut.ofQuiet (by simp) atStart).append (cutForm_of_walked walked))
      · rw [Tree.form_revise]
        exact ending

/-- Nothing is changed behind the target in a node that is visited. -/
theorem cutTree_of_walked
    {old new : Tree}
    (walked : WalkedNode cutRelation view old left new) :
    CutTree view.stop old left.stop new := by
  cases walked with
  | stopped stopped =>
      have isStopped : view.stop = .stopped := by
        cases atStop : view.stop with
        | stopped => rfl
        | _ => rw [atStop] at stopped; cases stopped
      rw [isStopped]
      exact ⟨fun _ => .behind, ⟨rfl, fun _ _ => rfl⟩, fun _ => rfl⟩
  | walked goesOn opens parts closes =>
      rename_i opened last closed middle
      obtain ⟨cut, ending, sameId⟩ := cutParts_of_walked parts
      obtain ⟨⟨sameStop, same⟩, closedId, closedEnding⟩ := closes
      have atStart : opened.stop = view.stop := opens
      rw [atStart] at cut
      refine ⟨fun dialect => ?_, ?_, fun stopped => ?_⟩
      · change Cut _ _ (closed.stop.observe old.id) _
        rw [Tree.pieces_eq_unfinished, Tree.pieces_eq_unfinished, closedId, sameId, sameStop]
        exact (cut dialect).finish fun stopped => by rw [same stopped]
      · exact ⟨closedEnding.1.trans ending.1, fun head head' =>
          (closedEnding.2 head head').trans (ending.2 head' head')⟩
      · rw [stopped] at goesOn
        cases goesOn

end Walked

end Format
end Lossless
