import Lossless.Proofs.Format.Exact
import Lossless.Proofs.Visit.Steps
import Lossless.Proofs.Visit.Walk

/-!
# What the hooks of the passes do

The hooks of a pass never fail. What they make of a space, a marker or a node is a function of the state, and
of the state they change messages alone.
-/

namespace Lossless

variable {τ ω σ γ α β : Type}

namespace VisitM

/-- A step whose outcome is known, and then others. -/
theorem Yields.bind_eq
    {step : VisitM τ ω σ γ α}
    {next : α -> VisitM τ ω σ γ β}
    {value : α}
    {state left : VisitState τ ω σ γ}
    {post : β -> VisitState τ ω σ γ -> Prop}
    (outcome : step state = (.ok value, left))
    (rest : (next value).Yields left post) :
    (step >>= next).Yields state post := by
  obtain ⟨result, last, finished, holds⟩ := rest
  refine ⟨result, last, ?_, holds⟩
  rw [bind_apply, outcome]
  exact finished

theorem mapM_of_eq
    {step : α -> VisitM τ ω σ γ β}
    {change : α -> β}
    {state : VisitState τ ω σ γ}
    (each : forall value, step value state = (.ok (change value), state))
    (list : List α) :
    list.mapM step state = (.ok (list.map change), state) := by
  induction list with
  | nil => rfl
  | cons first rest ih =>
      rw [List.mapM_cons, bind_apply, each]
      change (rest.mapM step >>= _) state = _
      rw [bind_apply, ih]
      rfl

/-- Markers that are changed one by one. -/
theorem visitMarkersWith_of_eq
    {visitMarker : Marker Space -> VisitM τ ω σ γ (Marker Space)}
    {change : Marker Space -> Marker Space}
    {state : VisitState τ ω σ γ}
    (each : forall marker, visitMarker marker state = (.ok (change marker), state))
    (markers : Markers Space) :
    visitMarkersWith visitMarker markers state =
      (.ok (markers.withMarkers (markers.toList.map change)), state) := by
  unfold visitMarkersWith
  split
  · next none =>
      rw [List.isEmpty_iff.1 none, List.map_nil, ← List.isEmpty_iff.1 none, Markers.withMarkers_toList]
      rfl
  · rw [bind_apply, mapM_of_eq each]
    rfl

end VisitM

namespace Format

open Java VisitM

/-! ## Passes that carry nothing on -/

/-- The change, or no change after the stop. -/
def changeFor
    (stop : StopAfter)
    (change : α -> α) : α -> α :=
  if stop.isStopped then id else change

theorem Pass.unlessStopped_eq
    (value : α)
    (change : α -> α)
    (state : VisitState Tree PaddingFrame Unit Unit) :
    Pass.unlessStopped value (fun value => return change value) state =
      (.ok (changeFor state.stop change value), state) := by
  unfold Pass.unlessStopped changeFor
  rw [bind_apply]
  change (if state.stop.isStopped then pure value else pure (change value) : PassVisit α) state = _
  split <;> rfl

theorem Pass.ofSpaces_markers_eq
    (change : SpacePlace -> Space -> Space)
    (markers : Markers Space)
    (state : VisitState Tree PaddingFrame Unit Unit) :
    (Exact.ofSpaces change).markers markers state =
      (.ok (markers.withMarkers (markers.toList.map
        (changeFor state.stop (Exact.mapTrailingComma (change .trailingCommaSuffix))))), state) :=
  visitMarkersWith_of_eq (fun marker => by
    change Pass.unlessStopped marker (fun marker => .ofExcept (mapTrailingComma _ marker)) state = _
    simp only [Exact.mapTrailingComma_ok]
    exact Pass.unlessStopped_eq marker _ state) markers

/-- A pass that leaves markers alone. -/
theorem markers_eq_self
    {visitor : GapVisitor Unit Unit}
    (same : visitor.marker = pure)
    (markers : Markers Space)
    (state : VisitState Tree PaddingFrame Unit Unit) :
    visitor.markers markers state = (.ok markers, state) := by
  have each (marker : Marker Space) : visitor.marker marker state = (.ok (id marker), state) := by
    rw [same]
    rfl
  have result := visitMarkersWith_of_eq each markers
  rwa [List.map_id, Markers.withMarkers_toList] at result

/-- A new frame has no messages. -/
theorem goesIn_of_isNew
    {cursor : TreeCursor}
    (isNew : cursor.top.messages = .empty) :
    cursor.message? Message.truth? skipChildrenKey ≠ some true := by
  rw [Cursor.message?, isNew]
  exact nofun

/-- Back from a frame on which nothing has been noted. -/
theorem returned_entered
    (view : View)
    (value : TreeFrame) :
    view.returned (view.entered value) = view := by
  rw [View.returned, View.entered, Cursor.returnTo_push]

/-! ## The indentation -/

namespace Indents

variable (style : IndentStyle)

/-- The stack that ends in the outermost call of the chain. -/
def chainCursor (cursor : TreeCursor) : TreeCursor :=
  (cursor.ancestors.drop (chainHeight cursor.frames)).headD cursor

/-- The column of the wrapped segments of the chain that the innermost frame belongs to. -/
def chainColumn (cursor : TreeCursor) : Nat :=
  ((chainCursor cursor).message? Message.column? chainedIndentKey).getD
    (lastIndent (chainCursor cursor) + style.continuationIndent)

/-- The frames once that column is noted on the outermost call. -/
def noteChain (cursor : TreeCursor) : TreeCursor :=
  if ((chainCursor cursor).message? Message.column? chainedIndentKey).isSome then cursor
  else cursor.putMessageBelow chainedIndentKey (.column (chainColumn style cursor))
    (chainHeight cursor.frames)

theorem chainedIndent_eq (state : VisitState Tree PaddingFrame Unit Unit) :
    Exact.chainedIndent style state =
      (.ok (chainColumn style state.cursor), { state with cursor := noteChain style state.cursor }) := by
  unfold Exact.chainedIndent noteChain chainColumn chainCursor
  rw [bind_apply]
  change (match _ with | some column => pure column | none => _ : PassVisit Nat) state = _
  split
  · next found => rw [found]; rfl
  · next missing => rw [missing]; rfl

/-- The column that a space with a line break leads to. -/
def columnAt
    (place : SpacePlace)
    (cursor : TreeCursor) : Nat :=
  if place = .methodSelectSuffix then chainColumn style cursor
  else
    (elementIndent? cursor place).getD (Exact.columnFor style (lastIndent cursor) (nestingFor cursor place))

/-- The frames once the column of a space is decided. -/
def notedFor
    (place : SpacePlace)
    (cursor : TreeCursor) : TreeCursor :=
  if place = .methodSelectSuffix then noteChain style cursor else cursor

theorem columnOfSpace_eq
    (place : SpacePlace)
    (state : VisitState Tree PaddingFrame Unit Unit) :
    Exact.columnOfSpace style place state =
      (.ok (columnAt style place state.cursor),
        { state with cursor := notedFor style place state.cursor }) := by
  unfold Exact.columnOfSpace columnAt notedFor
  rw [bind_apply]
  change (if place = .methodSelectSuffix then Exact.chainedIndent style else match _ with
    | some column => pure column | none => _ : PassVisit Nat) state = _
  split
  · exact chainedIndent_eq style state
  · split
    · next found => rw [found]; rfl
    · next missing => rw [missing]; rfl

/-- The frames once the column of a space is noted for what is inside. -/
def wrappedCursor
    (place : SpacePlace)
    (space : Space)
    (cursor : TreeCursor) : TreeCursor :=
  let column := columnAt style place cursor
  let noted := notedFor style place cursor
  if place.isTreePrefix then
    let lined := noted.putMessage lastIndentKey (.column column)
    if space.lastWhitespace.contains '\n' then lined.putMessage lineStartKey (.column column) else lined
  else if place = .methodSelectSuffix then noted.putMessage lastIndentKey (.column column)
  else noted

theorem visitWrapped_eq
    (place : SpacePlace)
    (space : Space)
    (state : VisitState Tree PaddingFrame Unit Unit) :
    Exact.visitWrapped style place space state =
      (.ok (Exact.indentTo style (columnAt style place state.cursor) space),
        { state with cursor := wrappedCursor style place space state.cursor }) := by
  unfold Exact.visitWrapped wrappedCursor
  rw [bind_apply, columnOfSpace_eq]
  dsimp only
  split
  · split <;> rfl
  · split <;> rfl

/-- What becomes of a space before the stop. -/
def indentedSpace
    (place : SpacePlace)
    (space : Space)
    (cursor : TreeCursor) : Space :=
  if place = .compilationUnitPrefix then Exact.indentTo style 0 (space.withWhitespace [])
  else if space.containsNewline then Exact.indentTo style (columnAt style place cursor) space
  else space

/-- What becomes of the frames before the stop. -/
def spaceCursor
    (place : SpacePlace)
    (space : Space)
    (cursor : TreeCursor) : TreeCursor :=
  if place ≠ .compilationUnitPrefix ∧ space.containsNewline then wrappedCursor style place space cursor
  else cursor

theorem visitSpace_of_stopped
    {state : VisitState Tree PaddingFrame Unit Unit}
    (stopped : state.stop.isStopped = true)
    (place : SpacePlace)
    (space : Space) :
    Exact.visitSpace style place space state = (.ok space, state) := by
  unfold Exact.visitSpace
  rw [bind_apply]
  change (if state.stop.isStopped then pure space else _ : PassVisit Space) state = _
  rw [if_pos stopped]
  rfl

theorem visitSpace_eq
    {state : VisitState Tree PaddingFrame Unit Unit}
    (goesOn : state.stop.isStopped = false)
    (place : SpacePlace)
    (space : Space) :
    Exact.visitSpace style place space state =
      (.ok (indentedSpace style place space state.cursor),
        { state with cursor := spaceCursor style place space state.cursor }) := by
  unfold Exact.visitSpace indentedSpace spaceCursor
  rw [bind_apply]
  change (if state.stop.isStopped then pure space else _ : PassVisit Space) state = _
  rw [if_neg (by simp [goesOn])]
  by_cases isFirst : place = .compilationUnitPrefix
  · rw [if_pos isFirst, if_pos isFirst, if_neg (by simp [isFirst])]
    rfl
  · rw [if_neg isFirst, if_neg isFirst]
    cases breaks : space.containsNewline
    · rw [if_pos (by rfl), if_neg (by simp), if_neg (by simp)]
      rfl
    · rw [if_neg (by simp), if_pos rfl, if_pos ⟨isFirst, rfl⟩]
      exact visitWrapped_eq style place space state

/-- The frames once it is noted what the parts of a node need. -/
def enteredCursor
    (tree : Tree)
    (cursor : TreeCursor) : TreeCursor :=
  (if tree.isSource then
    (cursor.putMessage lastIndentKey (.column 0)).putMessage lineStartKey (.column 0)
  else cursor).putMessage nestingKey (.nesting (nestingOf style tree.form))

theorem enterNode_eq
    (tree : Tree)
    (state : VisitState Tree PaddingFrame Unit Unit) :
    enterNode style tree state =
      (.ok (some tree), { state with cursor := enteredCursor style tree state.cursor }) := by
  unfold enterNode enteredCursor
  split <;> rfl

theorem goesIn_of_entered
    {tree : Tree}
    {cursor : TreeCursor}
    (isNew : cursor.top.messages = .empty) :
    (enteredCursor style tree cursor).message? Message.truth? skipChildrenKey ≠ some true := by
  have otherKeys : lastIndentKey ≠ skipChildrenKey ∧ lineStartKey ≠ skipChildrenKey ∧
      nestingKey ≠ skipChildrenKey := by decide
  unfold enteredCursor
  split <;> simp [Cursor.message?, Cursor.putMessage, Messages.read?, otherKeys, isNew]

/-! ## Lists -/

/-- The state in which an element of a list is visited. -/
def elementState
    (place : ElementPlace)
    (target : Nat)
    (state : VisitState Tree PaddingFrame Unit Unit) : VisitState Tree PaddingFrame Unit Unit :=
  let inside := state.entered (.padding (.element place))
  { inside with cursor := inside.cursor.putMessage elementIndentKey (.column target) }

/-- The column of the elements behind an element that has been visited. -/
def nextTarget
    (columns : ListColumns)
    (isFirst : Bool)
    (target : Nat)
    (cursor : TreeCursor)
    (unindented indented : Tree) : Nat :=
  match cursor.parent? with
  | some owner =>
      if isFirst && columns.aligns then Exact.firstElementColumn style columns owner unindented indented
      else target
  | none => target

/-- An element that has been visited, with its padding. -/
def paddedAfter
    (columns : ListColumns)
    (target : Nat)
    (stop : StopAfter)
    (isLast : Bool)
    (element : Tree)
    (padded : RightPadded Tree) : RightPadded Tree :=
  if stop.isStopped then { padded with element }
  else Exact.indentAfter style columns target isLast element padded

theorem visitElements_cons
    {visit : Tree -> PassVisit (Option Tree)}
    {place : ElementPlace}
    {columns : ListColumns}
    {isFirst : Bool}
    {target : Nat}
    {padded : RightPadded Tree}
    {rest : List (RightPadded Tree)}
    {state left : VisitState Tree PaddingFrame Unit Unit}
    {element : Tree}
    {post : List (RightPadded Tree) -> VisitState Tree PaddingFrame Unit Unit -> Prop}
    (visited : visit padded.element (elementState place target state) = (.ok (some element), left))
    (others :
      let next := nextTarget style columns isFirst target (state.returned left).cursor padded.element element
      (Exact.visitElements style visit place columns false next rest).Yields (state.returned left) fun list =>
        post (paddedAfter style columns next left.stop rest.isEmpty element padded :: list)) :
    (Exact.visitElements style visit place columns isFirst target (padded :: rest)).Yields state post := by
  have atElement : VisitM.within (.padding (.element place)) (do
      VisitM.putMessage elementIndentKey (.column target)
      visit padded.element) state = (.ok (some element), state.returned left) := by
    rw [within_apply]
    change ((visit padded.element (elementState place target state)).1,
      state.returned (visit padded.element (elementState place target state)).2) = _
    rw [visited]
  have after (next : Nat) :
      Pass.unlessStopped { padded with element } (fun padded =>
        return Exact.indentAfter style columns next rest.isEmpty padded.element padded) (state.returned left) =
          (.ok (paddedAfter style columns next left.stop rest.isEmpty element padded), state.returned left) := by
    rw [Pass.unlessStopped_eq, changeFor, paddedAfter]
    change (Except.ok ((if left.stop.isStopped then id else _) _), _) = _
    split <;> rfl
  unfold Exact.visitElements
  refine .bind_eq atElement (.bind_eq rfl (.bind_eq (after _) ?_))
  exact others.bind fun _ _ => .pure

/-- The space before a list and its elements, in the frame of the list. -/
theorem visitList_yields
    {visit : Tree -> PassVisit (Option Tree)}
    {place : ContainerPlace}
    {list : Container Tree}
    {state opened : VisitState Tree PaddingFrame Unit Unit}
    {before : Space}
    {post : Container Tree -> VisitState Tree PaddingFrame Unit Unit -> Prop}
    (atBefore : Exact.visitSpace style place.before list.before (state.entered (.padding (.container place))) =
      (.ok before, opened))
    (elements :
      let columns := Exact.listColumns style (lastIndent state.cursor) place
      (Exact.visitElements style visit place.element columns true columns.wrapped list.padded).Yields opened
        fun padded left => post ⟨before, padded, list.markers⟩ (state.returned left)) :
    (Exact.visitList style visit place list).Yields state post := by
  have inner : Yields
      (do let before <- Exact.visitSpace style place.before list.before
          let columns := Exact.listColumns style (lastIndent state.cursor) place
          return (before,
            <- Exact.visitElements style visit place.element columns true columns.wrapped list.padded))
      (state.entered (.padding (.container place))) fun parts left =>
        post ⟨parts.1, parts.2, list.markers⟩ (state.returned left) :=
    .bind_eq atBefore (elements.bind fun _ _ holds => .pure holds)
  refine .bind_eq rfl (.bind (.within inner) ?_)
  rintro _ _ ⟨left, holds, rfl⟩
  exact .pure holds

end Indents

end Format
end Lossless
