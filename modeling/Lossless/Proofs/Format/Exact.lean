import Lossless.Config.Settings
import Lossless.Proofs.Visit.Refined
import Mathlib.Data.List.Forall2

/-!
# Passes with numbers of any size

The passes count columns and line breaks in machine words, and a sum that does not fit ends the run. Here they are with
numbers of any size, as functions that always have a value. A pass in machine words refines the exact one, and so does a
formatting run: unless a sum does not fit, both have the same result. What the passes make of a tree is therefore shown
of the exact ones.
-/

namespace Lossless

/-- The first marker of a kind says what the first one found says. -/
theorem findSome?_of_find?
    {select : Fact Space -> Option α}
    {list : List (Marker Space)}
    {marker : Marker Space}
    (found : list.find? (fun marker => (select marker.fact).isSome) = some marker) :
    (list.findSome? fun marker => select marker.fact) = select marker.fact := by
  induction list with
  | nil => cases found
  | cons first rest ih =>
      rw [List.find?_cons] at found
      rw [List.findSome?_cons]
      cases tells : select first.fact with
      | none =>
          rw [tells] at found
          exact ih found
      | some fact =>
          rw [tells] at found
          rw [← Option.some.inj found, tells]

namespace Format

open Java VisitM

/-- Only the suffix of the first trailing comma is changed. -/
theorem updateTrailingComma_congr
    {change other : Space -> Space}
    {markers : Markers Space}
    (same : forall suffix, markers.findFirst? Fact.trailingComma? = some suffix -> change suffix = other suffix) :
    updateTrailingComma change markers = updateTrailingComma other markers := by
  unfold updateTrailingComma
  cases found : markers.toList.find? fun marker => marker.fact.trailingComma?.isSome with
  | none => rfl
  | some comma =>
      dsimp only
      split
      · next suffix fact => rw [same suffix ((findSome?_of_find? found).trans (by rw [fact]; rfl))]
      · rfl

/-- Markers stay when the suffix of the first trailing comma does. -/
theorem updateTrailingComma_of_stays
    {change : Space -> Space}
    {markers : Markers Space}
    (stays : forall suffix, markers.findFirst? Fact.trailingComma? = some suffix -> change suffix = suffix) :
    updateTrailingComma change markers = markers := by
  unfold updateTrailingComma
  split
  · rfl
  · next comma found =>
      split
      · next suffix fact =>
          have said : markers.findFirst? Fact.trailingComma? = some suffix :=
            (findSome?_of_find? found).trans (by rw [fact]; rfl)
          rw [if_pos (stays suffix said)]
      · rfl

namespace Exact

/-! ## Columns -/

/-- The width after one more character. -/
def widthAfter
    (tabSize width : Nat)
    (char : Char) : Nat :=
  if char = '\n' || char = '\r' then 0
  else if char = '\t' then width + tabSize
  else width + 1

/-- The width of what stands after the last line break. -/
def indentWidth
    (tabSize : Nat)
    (whitespace : Text) : Nat :=
  whitespace.foldl (widthAfter tabSize) 0

/-- Comments and the whitespace before the first one, moved to a column. -/
def indentComments
    (style : IndentStyle)
    (column : Nat) : Text -> List Comment -> Text × List Comment
  | leading, [] => (shiftWhitespace style column leading, [])
  | leading, comment :: rest =>
      let startsLine := leading.contains '\n'
      let width := indentWidth style.tabSize leading
      let stays := !startsLine || (width = 0 && !comment.isBlock)
      let text :=
        if comment.isBlock && startsLine then shiftCommentBody width column comment.text
        else comment.text
      let (suffix, rest) := indentComments style column comment.suffix rest
      (if stays then leading else shiftWhitespace style column leading,
        { comment with text, suffix } :: rest)

/-- Move what follows a space to a column; a space without a line break stays. -/
def indentTo
    (style : IndentStyle)
    (column : Nat)
    (space : Space) : Space :=
  if !space.containsNewline then space
  else if space.comments = [] then
    space.withWhitespace (shiftWhitespace style column space.whitespace)
  else
    let (whitespace, comments) := indentComments style column space.whitespace space.comments
    .build whitespace comments

/-- A line with its indentation in the characters of the style. -/
def retabLine
    (style : IndentStyle)
    (line : Text) : Text :=
  indentString style (indentWidth style.tabSize (line.takeWhile isIndent)) ++
    line.dropWhile isIndent

/-- Write the indentation of every line but the first in the characters of the style. -/
def retab
    (style : IndentStyle)
    (whitespace : Text) : Text :=
  match Text.splitAt '\n' whitespace with
  | [] => []
  | first :: rest => first ++ rest.flatMap fun line => '\n' :: retabLine style line

section Columns

variable (style : IndentStyle) (column : Nat)

theorem widthAfter_gives (tabSize width : Nat) (char : Char) :
    Gives (Format.widthAfter tabSize width char) (widthAfter tabSize width char) := by
  unfold Format.widthAfter widthAfter
  split
  · exact .ok _
  · split
    · exact .addWords _ _
    · exact .addWords _ _

theorem indentWidth_gives (tabSize : Nat) (whitespace : Text) :
    Gives (Format.indentWidth tabSize whitespace) (indentWidth tabSize whitespace) :=
  .foldlM (widthAfter_gives tabSize) 0 whitespace

theorem indentComments_gives
    (leading : Text)
    (comments : List Comment) :
    Gives (Format.indentComments style column leading comments) (indentComments style column leading comments) := by
  induction comments generalizing leading with
  | nil => exact .ok _
  | cons comment rest ih =>
      unfold Format.indentComments indentComments
      cases startsLine : leading.contains '\n' with
      | true => exact (indentWidth_gives _ _).bind ((ih _).bind (.ok _))
      | false =>
          simp only [Bool.false_eq_true, if_false, Bool.not_false, Bool.true_or, if_true, Bool.and_false]
          exact (ih _).bind (.ok _)

theorem indentTo_gives (space : Space) :
    Gives (Format.indentTo style column space) (indentTo style column space) := by
  unfold Format.indentTo indentTo
  split
  · exact .ok _
  · split
    · exact .ok _
    · exact (indentComments_gives style column _ _).bind (.ok _)

theorem retabLine_gives (line : Text) : Gives (Format.retabLine style line) (retabLine style line) :=
  (indentWidth_gives _ _).bind (.ok _)

theorem retab_gives (whitespace : Text) : Gives (Format.retab style whitespace) (retab style whitespace) := by
  unfold Format.retab retab
  cases Text.splitAt '\n' whitespace with
  | nil => exact .ok _
  | cons first rest =>
      have lines := Gives.mapM (retabLine_gives style) rest
      simpa only [List.flatMap_map] using lines.map fun lines => first ++ lines.flatMap fun line => '\n' :: line

end Columns

/-! ## Passes over spaces -/

/-- Change the space after a trailing comma; other markers stay. -/
def mapTrailingComma
    (change : Space -> Space)
    (marker : Marker Space) : Marker Space :=
  match marker.fact with
  | .trailingComma suffix =>
      if change suffix = suffix then marker
      else marker.withFact (.trailingComma (change suffix))
  | _ => marker

/-- The pass that changes each space by its place and never fails. -/
def ofSpaces (change : SpacePlace -> Space -> Space) : Pass :=
  .ofSpaces fun place space => .ok (change place space)

/-- Cap runs of blank lines; before the end of a block another cap holds. -/
def blankLines (style : BlankLineStyle) : Pass :=
  ofSpaces fun place space =>
    let keep := if place = .blockEnd then style.beforeEndOfBlock else style.inCode
    space.mapWhitespace (keepMaximumBreaks (keep + 1))

/-- Indent with the characters of the style. -/
def tabsOrSpaces (style : IndentStyle) : Pass :=
  ofSpaces fun _ space => space.mapWhitespace (retab style)

theorem changeWhitespace_gives
    {change : Text -> Except Error Text}
    {exact : Text -> Text}
    (each : forall text, Gives (change text) (exact text))
    (space : Space) :
    Gives (changeWhitespace change space) (space.mapWhitespace exact) :=
  (each _).bind ((Gives.mapM (fun comment : Comment => (each comment.suffix).map fun suffix =>
    { comment with suffix := suffix }) space.comments).map _)

theorem mapTrailingComma_gives
    {change : Space -> Except Error Space}
    {exact : Space -> Space}
    (each : forall space, Gives (change space) (exact space))
    (marker : Marker Space) :
    Gives (Format.mapTrailingComma change marker) (mapTrailingComma exact marker) := by
  unfold Format.mapTrailingComma mapTrailingComma
  cases marker.fact with
  | trailingComma suffix => exact (each suffix).map _
  | _ => exact .ok _

theorem unlessStopped_refines
    {change exact : α -> PassVisit α}
    (refines : forall value, (change value).Refines (exact value))
    (value : α) :
    (Pass.unlessStopped value change).Refines (Pass.unlessStopped value exact) := by
  refine (Refines.get.bind fun _ => .pure _).bind fun stopped => ?_
  split
  · exact .pure _
  · exact refines value

theorem mapTrailingComma_ok
    (change : Space -> Space)
    (marker : Marker Space) :
    Format.mapTrailingComma (fun space => .ok (change space)) marker = .ok (mapTrailingComma change marker) := by
  unfold Format.mapTrailingComma mapTrailingComma
  cases marker.fact <;> rfl

/-- A pass over spaces refines the one that has the exact values. -/
theorem ofSpaces_refines
    {change : SpacePlace -> Space -> Except Error Space}
    {exact : SpacePlace -> Space -> Space}
    (each : forall place space, Gives (change place space) (exact place space)) :
    Visitor.Refines (Pass.ofSpaces change) (ofSpaces exact) :=
  have space (place : SpacePlace) (space : Space) :
      ((Pass.ofSpaces change).space place space).Refines ((ofSpaces exact).space place space) :=
    unlessStopped_refines (fun space => .ofExcept (each place space)) space
  have comma (marker : Marker Space) :
      VisitM.Refines (τ := Tree) (ω := PaddingFrame) (σ := Unit) (γ := Unit)
        (VisitM.ofExcept (Format.mapTrailingComma (change .trailingCommaSuffix) marker))
        (VisitM.ofExcept (Format.mapTrailingComma (fun space => .ok (exact .trailingCommaSuffix space)) marker)) := by
    rw [mapTrailingComma_ok]
    exact .ofExcept (mapTrailingComma_gives (each .trailingCommaSuffix) marker)
  have marker (marker : Marker Space) :
      ((Pass.ofSpaces change).marker marker).Refines ((ofSpaces exact).marker marker) :=
    unlessStopped_refines comma marker
  { space := space
    marker := marker
    accepts := fun _ => .pure _
    acceptsSource := fun _ => .pure _
    before := fun _ => .pure _
    after := fun _ => .pure _
    visitContainer := fun _ _ children => GapVisitor.container_refines space marker children
    dispatch := fun _ _ children => children
    depthBound := rfl
    generations := fun _ => ⟨rfl, rfl⟩ }

/-- A pass over nodes never fails. -/
theorem ofNodes_refines (change : TreeCursor -> Tree -> Tree) :
    Visitor.Refines (Pass.ofNodes change) (Pass.ofNodes change) where
  space := fun _ _ => .pure _
  marker := fun _ => .pure _
  accepts := fun _ => .pure _
  acceptsSource := fun _ => .pure _
  before := fun _ => .pure _
  after := fun tree => Refines.get.bind fun _ =>
    (unlessStopped_refines (fun _ => .pure _) tree).bind fun _ => .pure _
  visitContainer := fun _ _ children => GapVisitor.container_refines (fun _ _ => .pure _) (fun _ => .pure _) children
  dispatch := fun _ _ children => children
  depthBound := rfl
  generations := fun _ => ⟨rfl, rfl⟩

/-! ## The indentation -/

/-- The column of a part from the column of its line. -/
def columnFor
    (style : IndentStyle)
    (indent : Nat) : Nesting -> Nat
  | .aligned => indent
  | .indented => indent + style.indentSize
  | .continued => indent + style.continuationIndent

/-- The column of the wrapped segments of the chain that the innermost frame belongs to. -/
def chainedIndent (style : IndentStyle) : PassVisit Nat := do
  let cursor := (<- get).cursor
  let height := Indents.chainHeight cursor.frames
  let outermost := (cursor.ancestors.drop height).headD cursor
  match outermost.message? Message.column? Indents.chainedIndentKey with
  | some column => return column
  | none =>
      let column := Indents.lastIndent outermost + style.continuationIndent
      modify fun state =>
        { state with
          cursor := state.cursor.putMessageBelow Indents.chainedIndentKey (.column column) height }
      return column

/-- The column that a space with a line break leads to. -/
def columnOfSpace
    (style : IndentStyle)
    (place : SpacePlace) : PassVisit Nat := do
  let cursor := (<- get).cursor
  if place = .methodSelectSuffix then
    chainedIndent style
  else
    match Indents.elementIndent? cursor place with
    | some column => return column
    | none => return columnFor style (Indents.lastIndent cursor) (Indents.nestingFor cursor place)

/-- Indent a space with a line break, and note the column for what is inside. -/
def visitWrapped
    (style : IndentStyle)
    (place : SpacePlace)
    (space : Space) : PassVisit Space := do
  let column <- columnOfSpace style place
  if place.isTreePrefix then
    VisitM.putMessage Indents.lastIndentKey (.column column)
    if space.lastWhitespace.contains '\n' then
      VisitM.putMessage Indents.lineStartKey (.column column)
  else if place = .methodSelectSuffix then
    VisitM.putMessage Indents.lastIndentKey (.column column)
  return indentTo style column space

/-- Indent a space. -/
def visitSpace
    (style : IndentStyle)
    (place : SpacePlace)
    (space : Space) : PassVisit Space := do
  if <- VisitM.isStopped then return space
  else if place = .compilationUnitPrefix then return indentTo style 0 (space.withWhitespace [])
  else if !space.containsNewline then return space
  else visitWrapped style place space

/-- The column in which a node stands, when it is on the line of an enclosing node. -/
def columnInLine?
    (owner : TreeCursor)
    (first : Stamp) : Option Nat := do
  let anchor <- owner.ancestors.find? fun ancestor =>
    ancestor.tree?.isSome && (ancestor.message? Message.column? Indents.lineStartKey).isSome
  let lineStart <- anchor.message? Message.column? Indents.lineStartKey
  let tree <- anchor.tree?
  let dialect := enclosingDialect owner
  let before <- Piece.textBefore? dialect.delimiters .hidden first (tree.pieces dialect)
  let segment := before.drop (tree.leading.render dialect.delimiters).length
  if segment.contains '\n' then
    return Text.columnOf before
  else
    return lineStart + segment.length

/-- The columns of a list in its place. -/
def listColumns
    (style : IndentStyle)
    (enclosing : Nat)
    (place : ContainerPlace) : Indents.ListColumns :=
  ⟨enclosing, columnFor style enclosing (Indents.nestingOfElements style place), Indents.alignsElements style place⟩

/-- The column below the first element, once it has been indented. -/
def firstElementColumn
    (style : IndentStyle)
    (columns : Indents.ListColumns)
    (owner : TreeCursor)
    (unindented indented : Tree) : Nat :=
  let whitespace := indented.leading.lastWhitespace
  if whitespace.contains '\n' then indentWidth style.tabSize whitespace
  else (columnInLine? owner unindented.id).getD columns.wrapped

/-- Indent the gap after an element, and the one after a trailing comma. -/
def indentAfter
    (style : IndentStyle)
    (columns : Indents.ListColumns)
    (target : Nat)
    (isLast : Bool)
    (element : Tree)
    (padded : RightPadded Tree) : RightPadded Tree :=
  let column :=
    if isLast && !hasTrailingComma padded then columns.enclosing else target
  let markers :=
    if isLast then updateTrailingComma (indentTo style columns.enclosing) padded.markers
    else padded.markers
  ⟨element, indentTo style column padded.after, markers⟩

section List

variable (style : IndentStyle)
variable (visit : Tree -> PassVisit (Option Tree))

/-- Visit the elements of a list. The column of the next element is given; the first one can set it. -/
def visitElements
    (place : ElementPlace)
    (columns : Indents.ListColumns)
    (isFirst : Bool)
    (target : Nat) : List (RightPadded Tree) -> PassVisit (List (RightPadded Tree))
  | [] => pure []
  | padded :: rest => do
      let visited <- VisitM.within (.padding (.element place)) do
        VisitM.putMessage Indents.elementIndentKey (.column target)
        visit padded.element
      match visited with
      | none => visitElements place columns false target rest
      | some element =>
          let owner := (<- get).cursor.parent?
          let target :=
            match owner with
            | some owner =>
                if isFirst && columns.aligns then
                  firstElementColumn style columns owner padded.element element
                else target
            | none => target
          let first <- Pass.unlessStopped { padded with element } fun padded =>
            return indentAfter style columns target rest.isEmpty padded.element padded
          return first :: (<- visitElements place columns false target rest)

/-- Visit a delimited list. -/
def visitList
    (place : ContainerPlace)
    (list : Container Tree) : PassVisit (Container Tree) := do
  let enclosing := Indents.lastIndent (<- get).cursor
  let (before, padded) <- VisitM.within (.padding (.container place)) do
    let before <- visitSpace style place.before list.before
    let columns := listColumns style enclosing place
    return (before,
      <- visitElements style visit place.element columns true columns.wrapped list.padded)
  return ⟨before, padded, list.markers⟩

end List

/-- Indent every line. -/
def tabsAndIndents (style : IndentStyle) : Pass where
  space := visitSpace style
  before := Indents.enterNode style
  visitContainer := visitList style

section Indents

variable (style : IndentStyle)

theorem columnFor_gives (indent : Nat) (nesting : Nesting) :
    Gives (Indents.columnFor style indent nesting) (columnFor style indent nesting) := by
  cases nesting with
  | aligned => exact .ok _
  | indented => exact .addWords _ _
  | continued => exact .addWords _ _

theorem putMessage_refines
    (key : Text)
    (message : Message) :
    (VisitM.putMessage key message : PassVisit Unit).Refines (VisitM.putMessage key message) :=
  .modify _

theorem chainedIndent_refines : (Indents.chainedIndent style).Refines (chainedIndent style) := by
  refine Refines.get.bind fun state => ?_
  dsimp only
  generalize (state.cursor.ancestors.drop (Indents.chainHeight state.cursor.frames)).headD state.cursor = outermost
  cases outermost.message? Message.column? Indents.chainedIndentKey with
  | some column => exact .pure _
  | none => exact .ofExcept_bind (.addWords _ _) ((Refines.modify _).bind fun _ => .pure _)

theorem columnOfSpace_refines (place : SpacePlace) :
    (Indents.columnOfSpace style place).Refines (columnOfSpace style place) := by
  refine Refines.get.bind fun state => ?_
  dsimp only
  split
  · exact chainedIndent_refines style
  · cases Indents.elementIndent? state.cursor place with
    | some column => exact .pure _
    | none => exact .ofExcept (columnFor_gives style _ _)

theorem visitWrapped_refines
    (place : SpacePlace)
    (space : Space) :
    (Indents.visitWrapped style place space).Refines (visitWrapped style place space) := by
  refine (columnOfSpace_refines style place).bind fun column => ?_
  have put (key : Text) := putMessage_refines key (.column column)
  refine .ofExcept_bind (indentTo_gives style column space) ?_
  dsimp only
  split
  · refine (put _).bind fun _ => ?_
    split
    · exact (put _).bind fun _ => .pure _
    · exact .pure _
  · split
    · exact (put _).bind fun _ => .pure _
    · exact .pure _

theorem visitSpace_refines
    (place : SpacePlace)
    (space : Space) :
    (Indents.visitSpace style place space).Refines (visitSpace style place space) := by
  refine (Refines.get.bind fun _ => .pure _).bind fun stopped => ?_
  split
  · exact .pure _
  · split
    · exact .ofExcept (indentTo_gives style 0 _)
    · split
      · exact .pure _
      · exact visitWrapped_refines style place space

theorem columnInLine?_gives
    (owner : TreeCursor)
    (first : Stamp)
    (wrapped : Nat) :
    Gives ((Indents.columnInLine? owner first).getD (.ok wrapped)) ((columnInLine? owner first).getD wrapped) := by
  unfold Indents.columnInLine? columnInLine?
  cases owner.ancestors.find? fun ancestor =>
      ancestor.tree?.isSome && (ancestor.message? Message.column? Indents.lineStartKey).isSome with
  | none => exact .ok _
  | some anchor =>
      simp only [Option.bind_eq_bind, Option.bind_some]
      cases anchor.message? Message.column? Indents.lineStartKey with
      | none => exact .ok _
      | some lineStart =>
          cases anchor.tree? with
          | none => exact .ok _
          | some tree =>
              simp only [Option.bind_some]
              cases Piece.textBefore? (enclosingDialect owner).delimiters .hidden first
                  (tree.pieces (enclosingDialect owner)) with
              | none => exact .ok _
              | some before =>
                  simp only [Option.bind_some]
                  split
                  · exact .ok _
                  · exact .addWords _ _

theorem firstElementColumn_gives
    (columns : Indents.ListColumns)
    (owner : TreeCursor)
    (unindented indented : Tree) :
    Gives (Indents.firstElementColumn style columns owner unindented indented)
      (firstElementColumn style columns owner unindented indented) := by
  unfold Indents.firstElementColumn firstElementColumn
  dsimp only
  split
  · exact indentWidth_gives _ _
  · exact columnInLine?_gives _ _ _

theorem indentTrailingComma_gives
    (column : Nat)
    (markers : Markers Space) :
    Gives (Indents.indentTrailingComma style column markers) (updateTrailingComma (indentTo style column) markers) := by
  unfold Indents.indentTrailingComma
  cases said : markers.findFirst? Fact.trailingComma? with
  | none =>
      rw [updateTrailingComma_of_stays (by simp [said])]
      exact .ok _
  | some suffix =>
      have only : updateTrailingComma (fun _ => indentTo style column suffix) markers =
          updateTrailingComma (indentTo style column) markers :=
        updateTrailingComma_congr fun other found => by rw [Option.some.inj (said.symm.trans found)]
      rw [<- only]
      exact (indentTo_gives style column suffix).map _

theorem indentAfter_gives
    (columns : Indents.ListColumns)
    (target : Nat)
    (isLast : Bool)
    (padded : RightPadded Tree) :
    Gives (Indents.indentAfter style columns target isLast padded)
      (indentAfter style columns target isLast padded.element padded) := by
  unfold Indents.indentAfter indentAfter
  refine (indentTo_gives style _ _).bind ?_
  cases isLast with
  | true => exact (indentTrailingComma_gives style _ _).bind (.ok _)
  | false => exact .ok _

variable {visit other : Tree -> PassVisit (Option Tree)}
variable (children : forall tree, (visit tree).Refines (other tree))

include children

theorem visitElements_refines
    (place : ElementPlace)
    (columns : Indents.ListColumns)
    (isFirst : Bool)
    (target : Nat)
    (list : List (RightPadded Tree)) :
    (Indents.visitElements style visit place columns isFirst target list).Refines
      (visitElements style other place columns isFirst target list) := by
  induction list generalizing isFirst target with
  | nil => exact .pure _
  | cons padded rest ih =>
      refine (Refines.within ((putMessage_refines _ _).bind fun _ => children _) _).bind fun visited => ?_
      cases visited with
      | none => exact ih false target
      | some element =>
          refine Refines.get.bind fun state => ?_
          dsimp only
          generalize state.cursor.parent? = owner
          have column : Gives
              (match owner with
              | some owner =>
                  if isFirst && columns.aligns then
                    Indents.firstElementColumn style columns owner padded.element element
                  else pure target
              | none => pure target)
              (match owner with
              | some owner =>
                  if isFirst && columns.aligns then firstElementColumn style columns owner padded.element element
                  else target
              | none => target) := by
            cases owner with
            | none => exact .ok _
            | some owner =>
                dsimp only
                split
                · exact firstElementColumn_gives style columns owner _ _
                · exact .ok _
          refine .ofExcept_bind column ?_
          refine (unlessStopped_refines (fun padded => .ofExcept (indentAfter_gives style _ _ _ padded)) _).bind ?_
          exact fun _ => (ih false _).bind fun _ => .pure _

theorem visitList_refines
    (place : ContainerPlace)
    (list : Container Tree) :
    (Indents.visitList style visit place list).Refines (visitList style other place list) := by
  refine Refines.get.bind fun state => (Refines.within ?_ _).bind fun _ => .pure _
  refine (visitSpace_refines style _ _).bind fun before => ?_
  refine .ofExcept_bind ((columnFor_gives style _ _).map _) ?_
  exact (visitElements_refines style children _ _ _ _ _).bind fun _ => .pure _

omit children in
theorem enterNode_refines (tree : Tree) : (Indents.enterNode style tree).Refines (Indents.enterNode style tree) := by
  have closing : VisitM.Refines _ _ :=
    (putMessage_refines Indents.nestingKey (.nesting (Indents.nestingOf style tree.form))).bind fun _ =>
      .pure (some tree)
  unfold Indents.enterNode
  split
  · exact (putMessage_refines _ _).bind fun _ => (putMessage_refines _ _).bind fun _ => closing
  · exact closing

omit children in
theorem tabsAndIndents_refines : Visitor.Refines (Format.tabsAndIndents style) (tabsAndIndents style) where
  space := visitSpace_refines style
  marker := fun _ => .pure _
  accepts := fun _ => .pure _
  acceptsSource := fun _ => .pure _
  before := enterNode_refines style
  after := fun _ => .pure _
  visitContainer := fun _ _ children => visitList_refines style children
  dispatch := fun _ _ children => children
  depthBound := rfl
  generations := fun _ => ⟨rfl, rfl⟩

end Indents

/-! ## Runs -/

/-- The passes of a formatting run in order. -/
def passes (styles : Styles) : List Pass :=
  [normalizeFormat, blankLines styles.blankLines, spaces styles.spacing,
    tabsAndIndents styles.indents, tabsOrSpaces styles.indents] ++
    if styles.indents.keepIndentsOnEmptyLines then [] else [trailingWhitespace]

/-- Format a tree below a cursor, with some styles changed. -/
def autoFormat
    (configure : Styles -> Styles)
    (stopAfter : Option Stamp)
    (parent : TreeCursor)
    (tree : Tree) : Except Error Tree :=
  runPasses stopAfter parent (passes (configure (enclosingStyles parent tree))) tree

/-- Format a tree with some settings over its styles. -/
def formatWith
    (settings : Option Config.FormatterSettings)
    (stopAfter : Option Stamp)
    (parent : TreeCursor)
    (tree : Tree) : Except Error Tree :=
  autoFormat (fun styles => (settings.map (·.applyTo styles)).getD styles) stopAfter parent tree

/-- Format a source unit, and make line breaks alike if the settings ask for one of them. -/
def formatSourceUnit
    (settings : Option Config.FormatterSettings)
    (tree : Tree) : Except Error Tree := do
  let formatted <- formatWith settings none .root tree
  match settings.bind fun settings => settings.useCrlf with
  | none => return formatted
  | some useCrlf =>
      let visited <- (lineBreaks ⟨useCrlf⟩).run none .root formatted
      return visited.getD formatted

/-- Format a source text that is found under a path. -/
def formatSource
    (settings : Config.FormatterSettings)
    (source : Text)
    (path : Path) : Except Error Text := do
  let tree <- Java.parse source path
  let formatted <- formatSourceUnit (some settings) (tree.settle.run 0).1
  return formatted.printTrimmed

theorem blankLines_refines (style : BlankLineStyle) :
    Visitor.Refines (Format.blankLines style) (blankLines style) :=
  ofSpaces_refines fun _ _ => changeWhitespace_gives (fun _ => (Gives.addWords _ _).map _) _

theorem tabsOrSpaces_refines (style : IndentStyle) :
    Visitor.Refines (Format.tabsOrSpaces style) (tabsOrSpaces style) :=
  ofSpaces_refines fun _ => changeWhitespace_gives (retab_gives style)

theorem passes_refine (styles : Styles) :
    List.Forall₂ Visitor.Refines (Format.passes styles) (passes styles) := by
  refine List.rel_append ?_ ?_
  · exact .cons (ofNodes_refines _) <| .cons (blankLines_refines _) <| .cons (ofNodes_refines _) <|
      .cons (tabsAndIndents_refines _) <| .cons (tabsOrSpaces_refines _) .nil
  · split
    · exact .nil
    · exact .cons (ofSpaces_refines fun _ _ => .ok _) .nil

section Runs

variable {stopAfter : Option Stamp}
variable {parent : TreeCursor}
variable {tree : Tree}

/-- A pass whose run does not overflow does what the exact one does. -/
theorem run_eq
    {pass exact : Pass}
    (refines : Visitor.Refines pass exact)
    (fits : overflows (pass.run stopAfter parent tree) = false) :
    pass.run stopAfter parent tree = exact.run stopAfter parent tree := by
  rcases refines.run tree (.start parent (.ofTarget stopAfter) () ()) with stops | ⟨value, left, runs, same⟩
  · rw [Pass.run, runFrom, stops] at fits
    cases fits
  · rw [Pass.run, Pass.run, runFrom, runFrom, runs, same]

theorem runPasses_eq
    {steps exacts : List Pass}
    (refine : List.Forall₂ Visitor.Refines steps exacts)
    (fits : overflows (runPasses stopAfter parent steps tree) = false) :
    runPasses stopAfter parent steps tree = runPasses stopAfter parent exacts tree := by
  induction refine generalizing tree with
  | nil => rfl
  | cons refines _ ih => exact bind_eq_of_fits (run_eq refines) (fun _ => ih) fits

theorem autoFormat_eq
    {configure : Styles -> Styles}
    (fits : overflows (Format.autoFormat configure stopAfter parent tree) = false) :
    Format.autoFormat configure stopAfter parent tree = autoFormat configure stopAfter parent tree :=
  runPasses_eq (passes_refine _) fits

theorem formatSourceUnit_eq
    {settings : Option Config.FormatterSettings}
    (fits : overflows (Format.formatSourceUnit settings tree) = false) :
    Format.formatSourceUnit settings tree = formatSourceUnit settings tree :=
  bind_eq_of_fits autoFormat_eq (fun _ _ => rfl) fits

theorem formatSource_eq
    {settings : Config.FormatterSettings}
    {source : Text}
    {path : Path}
    (fits : overflows (Format.formatSource settings source path) = false) :
    Format.formatSource settings source path = formatSource settings source path :=
  bind_eq_of_fits (fun _ => rfl) (fun _ => bind_eq_of_fits formatSourceUnit_eq fun _ _ => rfl) fits

end Runs

end Exact
end Format
end Lossless
