import Lossless.Format.Separate
import Lossless.Proofs.Format.Hooks
import Lossless.Proofs.Layout.Changed

/-!
# Passes that look at places and nodes

Most passes make of a space what follows from its place, and of a node what follows from the nodes around it.
Such a pass, run without a stop, changes the spaces of every form by their places; `ChangedParts` is what it has
made of a node when its hook for nodes is run.
-/

namespace Lossless

namespace Java

/-- Of frames those that stand for no padding. -/
def nodesAmong (frames : List TreeFrame) : List TreeFrame :=
  frames.filter fun frame => frame.padding?.isNone

/-- The nodes around a place, the innermost first. -/
abbrev nodesOf (cursor : TreeCursor) : List TreeFrame :=
  nodesAmong cursor.values

end Java

namespace Format

open Java VisitM

/-- Nothing has stopped the visit, and the frames stand for the same. -/
structure Kept (view left : View) : Prop where
  goesOn : left.stop = .never
  values : left.cursor.values = view.cursor.values

namespace Kept

variable {view middle left : View}

theorem nodes (kept : Kept view left) : nodesOf left.cursor = nodesOf view.cursor :=
  congrArg nodesAmong kept.values

theorem refl (goesOn : view.stop = .never) : Kept view view := ⟨goesOn, rfl⟩

theorem trans
    (first : Kept view middle)
    (second : Kept middle left) :
    Kept view left :=
  ⟨second.goesOn, second.values.trans first.values⟩

/-- Back from the frame of a padding. -/
theorem returned
    {place : PaddingFrame}
    (inner : Kept (view.entered (.padding place)) left) :
    Kept view (view.returned left) :=
  ⟨inner.goesOn, Cursor.values_returnTo ..⟩

end Kept

section Relation

variable (gap : SpacePlace -> Space -> Space -> Prop)
variable (child closes : List TreeFrame -> Tree -> Tree -> Prop)

/-- What a pass makes of a node before its hook for nodes is run. -/
structure ChangedParts
    (child : Tree -> Tree -> Prop)
    (old new : Tree) : Prop where
  leading : gap old.form.leadingPlace old.leading new.leading
  markers : ChangedMarkers gap old.markers new.markers
  form : ChangedForm gap child old.form new.form

/-- How a pass without messages changes the parts of a node, as long as nothing stops it. -/
def plainRelation : WalkRelation where
  space := fun place view old left new => view.stop = .never -> Kept view left ∧ gap place old new
  markers := fun view old left new => view.stop = .never -> Kept view left ∧ ChangedMarkers gap old new
  child := fun view old left new => view.stop = .never -> Kept view left ∧ child (nodesOf view.cursor) old new
  list := fun place view old left new => view.stop = .never ->
    Kept view left ∧ ChangedContainer gap (child (nodesOf view.cursor)) place old new
  opens := fun view _ left => view.stop = .never -> Kept view left
  closes := fun view old left new => view.stop = .never ->
    Kept view left ∧ closes view.cursor.values old new

end Relation

section Walked

variable {gap : SpacePlace -> Space -> Space -> Prop}
variable {child closes : List TreeFrame -> Tree -> Tree -> Prop}
variable {view left : View}

theorem changedPadded_of_walked
    {place : ElementPlace}
    {old new : RightPadded Tree}
    (walked : WalkedElement (plainRelation gap child closes) place view old left new)
    (goesOn : view.stop = .never) :
    Kept view left ∧ ChangedPadded gap (child (nodesOf view.cursor)) place old new := by
  cases walked with
  | mk element after markers =>
      obtain ⟨first, atElement⟩ := element goesOn
      have back := first.returned
      obtain ⟨second, atAfter⟩ := after back.goesOn
      obtain ⟨third, atMarkers⟩ := markers second.goesOn
      exact ⟨(back.trans second).trans third, atElement, atAfter, atMarkers⟩

theorem changedElements_of_walked
    {place : ElementPlace}
    {old new : List (RightPadded Tree)}
    (walked : WalkedElements (plainRelation gap child closes) place view old left new)
    (goesOn : view.stop = .never) :
    Kept view left ∧ List.Forall₂ (ChangedPadded gap (child (nodesOf view.cursor)) place) old new := by
  induction walked with
  | nil => exact ⟨.refl goesOn, .nil⟩
  | cons first _ ih =>
      obtain ⟨atFirst, changed⟩ := changedPadded_of_walked first goesOn
      obtain ⟨atRest, others⟩ := ih atFirst.goesOn
      rw [atFirst.nodes] at others
      exact ⟨atFirst.trans atRest, .cons changed others⟩

theorem changedOperand_of_walked
    {place : OperandPlace}
    {old new : LeftPadded Tree}
    (walked : WalkedOperand (plainRelation gap child closes) place view old left new)
    (goesOn : view.stop = .never) :
    Kept view left ∧ ChangedOperand gap (child (nodesOf view.cursor)) place old new := by
  cases walked with
  | mk before element markers =>
      obtain ⟨first, atBefore⟩ := before goesOn
      obtain ⟨second, atElement⟩ := element first.goesOn
      have back := (first.trans second).returned
      obtain ⟨third, atMarkers⟩ := markers back.goesOn
      rw [first.nodes] at atElement
      exact ⟨back.trans third, atBefore, atElement, atMarkers⟩

theorem changedContainer_of_walked
    {place : ContainerPlace}
    {old new : Container Tree}
    (walked : WalkedContainer (plainRelation gap child closes) place view old left new)
    (goesOn : view.stop = .never) :
    Kept view left ∧ ChangedContainer gap (child (nodesOf view.cursor)) place old new := by
  cases walked with
  | mk before elements markers =>
      obtain ⟨first, atBefore⟩ := before goesOn
      obtain ⟨second, atElements⟩ := changedElements_of_walked elements first.goesOn
      have back := (first.trans second).returned
      obtain ⟨third, atMarkers⟩ := markers back.goesOn
      rw [first.nodes] at atElements
      exact ⟨back.trans third, atBefore, atElements, atMarkers⟩

theorem changedOption_of_walked
    {old new : Option Tree}
    (walked : WalkedOption (plainRelation gap child closes).child view old left new)
    (goesOn : view.stop = .never) :
    Kept view left ∧ Option.Rel (child (nodesOf view.cursor)) old new := by
  cases walked with
  | none => exact ⟨.refl goesOn, .none⟩
  | some part =>
      obtain ⟨kept, changed⟩ := part goesOn
      exact ⟨kept, .some changed⟩

theorem changedReceiver_of_walked
    {old new : Option (RightPadded Tree)}
    (walked : WalkedOption (WalkedElement (plainRelation gap child closes) .methodSelect) view old left new)
    (goesOn : view.stop = .never) :
    Kept view left ∧ Option.Rel (ChangedPadded gap (child (nodesOf view.cursor)) .methodSelect) old new := by
  cases walked with
  | none => exact ⟨.refl goesOn, .none⟩
  | some element =>
      obtain ⟨kept, changed⟩ := changedPadded_of_walked element goesOn
      exact ⟨kept, .some changed⟩

/-- A pass changes the spaces of every form by their places. -/
theorem changedForm_of_walked
    {old new : Form Tree}
    (walked : WalkedForm (plainRelation gap child closes) view old left new)
    (goesOn : view.stop = .never) :
    Kept view left ∧ ChangedForm gap (child (nodesOf view.cursor)) old new := by
  cases walked with
  | compilationUnit statements eof =>
      obtain ⟨first, atStatements⟩ := changedElements_of_walked statements goesOn
      obtain ⟨second, atEof⟩ := eof first.goesOn
      exact ⟨first.trans second, .compilationUnit atStatements atEof⟩
  | block statements closing =>
      obtain ⟨first, atStatements⟩ := changedElements_of_walked statements goesOn
      obtain ⟨second, atEnd⟩ := closing first.goesOn
      exact ⟨first.trans second, .block atStatements atEnd⟩
  | conditional condition consequence alternative =>
      obtain ⟨first, atCondition⟩ := condition goesOn
      obtain ⟨second, atConsequence⟩ := changedPadded_of_walked consequence first.goesOn
      obtain ⟨third, atAlternative⟩ := changedOption_of_walked alternative second.goesOn
      rw [first.nodes] at atConsequence
      rw [(first.trans second).nodes] at atAlternative
      exact ⟨(first.trans second).trans third, .conditional atCondition atConsequence atAlternative⟩
  | otherwise body =>
      obtain ⟨kept, changed⟩ := changedPadded_of_walked body goesOn
      exact ⟨kept, .otherwise changed⟩
  | returns value =>
      obtain ⟨kept, changed⟩ := changedOption_of_walked value goesOn
      exact ⟨kept, .returns changed⟩
  | assignment target value =>
      obtain ⟨first, atTarget⟩ := target goesOn
      obtain ⟨second, atValue⟩ := changedOperand_of_walked value first.goesOn
      rw [first.nodes] at atValue
      exact ⟨first.trans second, .assignment atTarget atValue⟩
  | binary leftTree operator right =>
      obtain ⟨first, atLeft⟩ := leftTree goesOn
      cases operator with
      | mk before markers =>
          obtain ⟨second, atBefore⟩ := before first.goesOn
          have back := second.returned
          obtain ⟨third, atMarkers⟩ := markers back.goesOn
          have outer := (first.trans back).trans third
          obtain ⟨fourth, atRight⟩ := right outer.goesOn
          rw [outer.nodes] at atRight
          exact ⟨outer.trans fourth, .binary atLeft atBefore rfl atMarkers atRight⟩
  | identifier => exact ⟨.refl goesOn, .identifier⟩
  | literal => exact ⟨.refl goesOn, .literal⟩
  | fieldAccess target name =>
      obtain ⟨first, atTarget⟩ := target goesOn
      obtain ⟨second, atName⟩ := changedOperand_of_walked name first.goesOn
      rw [first.nodes] at atName
      exact ⟨first.trans second, .fieldAccess atTarget atName⟩
  | call receiver name list =>
      obtain ⟨first, atReceiver⟩ := changedReceiver_of_walked receiver goesOn
      obtain ⟨second, atName⟩ := name first.goesOn
      have outer := first.trans second
      obtain ⟨third, atList⟩ := list outer.goesOn
      rw [first.nodes] at atName
      rw [outer.nodes] at atList
      exact ⟨outer.trans third, .call atReceiver atName atList⟩
  | declaration returnType name list body =>
      obtain ⟨first, atType⟩ := changedOption_of_walked returnType goesOn
      obtain ⟨second, atName⟩ := name first.goesOn
      have outer := first.trans second
      obtain ⟨third, atList⟩ := list outer.goesOn
      obtain ⟨fourth, atBody⟩ := changedOption_of_walked body third.goesOn
      rw [first.nodes] at atName
      rw [outer.nodes] at atList
      rw [(outer.trans third).nodes] at atBody
      exact ⟨(outer.trans third).trans fourth, .declaration atType atName atList atBody⟩
  | parentheses inner =>
      obtain ⟨kept, changed⟩ := changedPadded_of_walked inner goesOn
      exact ⟨kept, .parentheses changed⟩
  | collection list =>
      obtain ⟨kept, changed⟩ := list goesOn
      exact ⟨kept, .collection changed⟩
  | empty => exact ⟨.refl goesOn, .empty⟩
  | unknown => exact ⟨.refl goesOn, .unknown⟩

/-- A node whose parts are changed is handed to the hook for nodes. -/
theorem changedParts_of_walked
    {old new : Tree}
    (walked : WalkedNode (plainRelation gap child closes) view old left new)
    (goesOn : view.stop = .never) :
    Kept view left ∧ exists middle,
      ChangedParts gap (child (.tree old :: nodesOf view.cursor)) old middle ∧
        closes (.tree old :: view.cursor.values) middle new := by
  cases walked with
  | stopped stopped =>
      rw [goesOn] at stopped
      cases stopped
  | walked _ opens parts closed =>
      have first := opens goesOn
      cases parts with
      | mk leading markers form =>
          obtain ⟨second, atLeading⟩ := leading first.goesOn
          obtain ⟨third, atMarkers⟩ := markers second.goesOn
          obtain ⟨fourth, atForm⟩ := changedForm_of_walked form third.goesOn
          have inner := first.trans (second.trans third)
          have outer := inner.trans fourth
          obtain ⟨fifth, atEnd⟩ := closed outer.goesOn
          rw [inner.nodes] at atForm
          rw [outer.values] at atEnd
          refine ⟨⟨?_, Cursor.values_returnTo ..⟩, _, ⟨?_, ?_, ?_⟩, atEnd⟩
          · rw [View.observed, View.returned, fifth.goesOn]
            rfl
          · rwa [Tree.leading_revise]
          · rwa [Tree.markers_revise]
          · rwa [Tree.form_revise]

end Walked

/-! ## Runs -/

section Runs

variable {gap : SpacePlace -> Space -> Space -> Prop}
variable {child closes : List TreeFrame -> Tree -> Tree -> Prop}

/-- A run of such a pass never fails, and what holds of every node holds of its result. -/
theorem Pass.exists_run
    {pass : Pass}
    (walks : Visitor.Walks pass (plainRelation gap child closes))
    (node : forall frames old middle new,
      ChangedParts gap (child (.tree old :: nodesAmong frames)) old middle ->
        closes (.tree old :: frames) middle new -> child (nodesAmong frames) old new)
    (tree : Tree) :
    exists new, pass.run none .root tree = .ok (some new) ∧ child [.root] tree new := by
  have nodes (view : View) (old : Tree) (left : View) (new : Tree)
      (walked : WalkedNode (plainRelation gap child closes) view old left new) :
      (plainRelation gap child closes).child view old left new := by
    intro goesOn
    obtain ⟨kept, middle, parts, closed⟩ := changedParts_of_walked walked goesOn
    exact ⟨kept, node _ _ _ _ parts closed⟩
  obtain ⟨_, left, runs, new, rfl, related⟩ :=
    Visitor.run_walks walks nodes tree (.start .root (.ofTarget none) () ())
  exact ⟨new, congrArg Prod.fst runs, (related rfl).2⟩

end Runs

section Hooks

variable {child : List TreeFrame -> Tree -> Tree -> Prop}

theorem mapTrailingComma_changes
    (change : SpacePlace -> Space -> Space)
    (markers : Markers Space) :
    ChangedMarkers (fun place old new => new = change place old) markers
      (markers.withMarkers (markers.toList.map (Exact.mapTrailingComma (change .trailingCommaSuffix)))) := by
  constructor
  · intro none
    rw [Markers.toList_withMarkers, none]
    rfl
  · intro marker suffix only isComma
    refine ⟨Exact.mapTrailingComma (change .trailingCommaSuffix) marker, change .trailingCommaSuffix suffix, ?_, ?_, rfl⟩
    · rw [Markers.toList_withMarkers, only]
      rfl
    · rw [Exact.mapTrailingComma, isComma]
      dsimp only
      split
      · next same => rw [isComma, same]
      · rfl

theorem ofSpaces_gaps_plain
    (change : SpacePlace -> Space -> Space)
    (closes : List TreeFrame -> Tree -> Tree -> Prop) :
    (Exact.ofSpaces change).toGapVisitor.Walks
      (plainRelation (fun place old new => new = change place old) child closes) where
  space := fun place space state => by
    refine ⟨_, state, Pass.unlessStopped_eq .., fun goesOn => ⟨.refl goesOn, ?_⟩⟩
    change state.stop = _ at goesOn
    rw [goesOn]
    rfl
  markers := fun markers state => by
    refine ⟨_, state, Pass.ofSpaces_markers_eq .., fun goesOn => ⟨.refl goesOn, ?_⟩⟩
    change state.stop = _ at goesOn
    rw [goesOn]
    exact mapTrailingComma_changes change markers

theorem unchangedMarkers (markers : Markers Space) :
    ChangedMarkers (fun _ old new => new = old) markers markers :=
  ⟨id, fun marker suffix only isComma => ⟨marker, suffix, only, isComma, rfl⟩⟩

theorem ofNodes_gaps_plain
    (change : TreeCursor -> Tree -> Tree)
    (closes : List TreeFrame -> Tree -> Tree -> Prop) :
    (Pass.ofNodes change).toGapVisitor.Walks (plainRelation (fun _ old new => new = old) child closes) where
  space := fun _ _ _ => .pure fun goesOn => ⟨.refl goesOn, rfl⟩
  markers := fun markers state =>
    ⟨markers, state, markers_eq_self rfl markers state,
      fun goesOn => ⟨.refl goesOn, unchangedMarkers markers⟩⟩

/-- A list that is visited in the ordinary way. -/
theorem container_walks_plain
    {gap : SpacePlace -> Space -> Space -> Prop}
    {closes : List TreeFrame -> Tree -> Tree -> Prop}
    {visitor : GapVisitor Unit Unit}
    (walks : visitor.Walks (plainRelation gap child closes))
    {visit : Tree -> PassVisit (Option Tree)}
    {place : ContainerPlace}
    {list : Container Tree}
    (children : forall tree, tree ∈ list.elements ->
      WalksTo (plainRelation gap child closes).child tree (visit tree)) :
    Java.Walks ((plainRelation gap child closes).list place) list (visitor.container visit place list) :=
  fun state => (GapVisitor.container_walks walks place children state).mono fun _ _ =>
    changedContainer_of_walked

/-- A pass over spaces changes each of them by its place. -/
theorem ofSpaces_walks_plain (change : SpacePlace -> Space -> Space) :
    (Exact.ofSpaces change).Walks
      (plainRelation (fun place old new => new = change place old) child fun _ old new => new = old) where
  gaps := ofSpaces_gaps_plain change _
  list := fun _ _ _ => container_walks_plain (ofSpaces_gaps_plain change _)
  before := fun _ _ isNew => .pure ⟨rfl, goesIn_of_isNew isNew, .refl⟩
  after := fun tree _ => .pure ⟨tree, rfl, fun goesOn => ⟨.refl goesOn, rfl⟩⟩
  accepts := rfl
  acceptsSource := rfl
  dispatch := rfl
  depthBound := rfl
  generations := rfl

/-- A pass over nodes leaves the spaces alone on its way. -/
theorem ofNodes_walks_plain (change : TreeCursor -> Tree -> Tree) :
    (Pass.ofNodes change).Walks
      (plainRelation (fun _ old new => new = old) child
        fun frames old new => exists cursor, cursor.values = frames ∧ new = change cursor old) where
  gaps := ofNodes_gaps_plain change _
  list := fun _ _ _ => container_walks_plain (ofNodes_gaps_plain change _)
  before := fun _ _ isNew => .pure ⟨rfl, goesIn_of_isNew isNew, .refl⟩
  after := fun tree state => by
    refine .bind_eq rfl (.bind_eq (Pass.unlessStopped_eq tree (change state.cursor) state) (.pure ?_))
    refine ⟨_, rfl, fun goesOn => ⟨.refl goesOn, state.cursor, rfl, ?_⟩⟩
    change state.stop = _ at goesOn
    rw [goesOn]
    rfl
  accepts := rfl
  acceptsSource := rfl
  dispatch := rfl
  depthBound := rfl
  generations := rfl

end Hooks

/-! ## Parts of canonical trees -/

section Trees

variable {styles : Styles}
variable {gap : SpacePlace -> Space -> Space -> Prop}
variable {old new tree : Tree}

/-- What is made of a node by place, given that it could be read. -/
def BecomesChanged
    (styles : Styles)
    (gap : SpacePlace -> Space -> Space -> Prop)
    (old new : Tree) : Prop :=
  new.form.isEmpty = old.form.isEmpty ∧ (old.IsPart -> Changed styles gap old new)

theorem ChangedParts.changed
    (parts : ChangedParts gap (BecomesChanged styles gap) old new)
    (part : old.IsPart) :
    Changed styles gap old new := by
  intro around
  refine relaid_iff.2 ⟨parts.leading, part.unmarked, parts.markers.1 part.unmarked, ?_⟩
  have form : RelaidForm styles (fun slot => gap slot.place) (fun _ => BecomesChanged styles gap)
      (around.interior styles old.leading old.form) old.form new.form :=
    parts.form.relaid (fun _ _ related => related.1) part.canonical.root.fits
  exact form.mono (fun _ _ _ => id) fun child _ member around related =>
    related.2 (part.canonical.part (List.of_mem_zip member).1) around

/-- A pass whose hook for nodes does nothing changes the spaces of a tree by their places. -/
theorem Pass.exists_changed
    {pass : Pass}
    (walks : Visitor.Walks pass
      (plainRelation gap (fun _ => BecomesChanged styles gap) fun _ old new => new = old))
    (part : tree.IsPart) :
    exists new, pass.run none .root tree = .ok (some new) ∧ Changed styles gap tree new := by
  obtain ⟨new, runs, -, changed⟩ := Pass.exists_run walks (fun _ old middle new parts same => by
    subst same
    exact ⟨parts.form.isEmpty_eq, parts.changed⟩) tree
  exact ⟨new, runs, changed part⟩

/-- A pass over spaces changes the spaces of a tree by their places. -/
theorem ofSpaces_changes
    (styles : Styles)
    (change : SpacePlace -> Space -> Space)
    (part : tree.IsPart) :
    exists new, (Exact.ofSpaces change).run none .root tree = .ok (some new) ∧
      Changed styles (fun place old new => new = change place old) tree new :=
  Pass.exists_changed (ofSpaces_walks_plain change) part

/-- The space before the return type of a declaration that was read is empty; there is nothing to hoist. -/
theorem hoistReturnType_of_parts
    (parts : ChangedParts (fun _ old new => new = old) (BecomesChanged styles fun _ old new => new = old) old new)
    (part : old.IsPart) :
    hoistReturnType new = new := by
  unfold hoistReturnType
  split
  · next returnType' name' parameters' body' atNew =>
      have forms := parts.form
      have canonical := part.canonical
      obtain ⟨head, form⟩ := old
      rw [atNew] at forms
      cases forms with
      | declaration returnType =>
          cases returnType with
          | some related =>
              have separates := canonical.root.separates
              have same := (relaid_iff.1 (related.2 (canonical.part (by simp [Form.children])) .root)).leading
              rw [if_pos (by rw [same]; exact separates.1 _ rfl)]
  · rfl

theorem isEmpty_hoistReturnType (tree : Tree) : (hoistReturnType tree).form.isEmpty = tree.form.isEmpty := by
  unfold hoistReturnType
  split
  · next form =>
      split
      · rfl
      · rw [Tree.form_revise, form]
        rfl
  · rfl

/-- Nothing is hoisted in a tree that was read. -/
theorem normalizeFormat_changes
    (styles : Styles)
    (part : tree.IsPart) :
    exists new, normalizeFormat.run none .root tree = .ok (some new) ∧
      Changed styles (fun _ old new => new = old) tree new := by
  have walks : Visitor.Walks normalizeFormat (plainRelation _
      (fun _ => BecomesChanged styles fun _ old new => new = old) _) :=
    ofNodes_walks_plain _
  obtain ⟨new, runs, -, changed⟩ := Pass.exists_run walks (fun _ old middle new parts hoisted => by
    obtain ⟨cursor, -, rfl⟩ := hoisted
    refine ⟨?_, fun part => ?_⟩
    · exact (isEmpty_hoistReturnType middle).trans parts.form.isEmpty_eq
    · rw [hoistReturnType_of_parts parts part]
      exact parts.changed part) tree
  exact ⟨new, runs, changed part⟩

end Trees

end Format
end Lossless
