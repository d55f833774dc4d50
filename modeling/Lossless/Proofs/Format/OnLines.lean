import Lossless.Proofs.Format.Aligned
import Lossless.Proofs.Format.Fixpoint.Echo

/-!
# Lists that are measured on a line

The column below the first element of a list is measured from the node that starts the line of the list. As long as
nothing breaks the line in between, what is measured is the same text before and after a layout, in a copy of the tree,
too: the nodes of two related trees are printed in the same order, and what is printed in front of them is related
piece by piece.
-/

namespace Lossless

namespace Java
namespace Tree

/-! ## Nodes on lines -/

/-- The line inside a node: the node itself where it starts one. -/
def lineInside (line tree : Tree) : Tree :=
  if tree.startsLine then tree else line

/-- The nodes of a tree that stands on a line, each with the line inside it. -/
def nodesOnLines (line tree : Tree) : List (Tree × Tree) :=
  recurse
    (fun head form (line : Tree) =>
      let tree := node head (form.map Prod.fst)
      (line.lineInside tree, tree) :: form.children.flatMap fun child => child.2 (line.lineInside tree))
    tree line

theorem nodesOnLines_node
    (line : Tree)
    (head : Head)
    (form : Form Tree) :
    nodesOnLines line (node head form) =
      (line.lineInside (node head form), node head form) ::
        form.children.flatMap (nodesOnLines (line.lineInside (node head form))) := by
  rw [nodesOnLines, recurse_node, Form.map_fst_withValue, Form.children_map]
  dsimp only
  rw [List.flatMap_map]
  rfl

end Tree
end Java

namespace Format

open Java

variable {styles : Styles} {gap : Slot -> Space -> Space -> Prop} {around : Surroundings}

/-! ## Nodes in the same place -/

theorem zip_subset_flatMap
    {α β : Type}
    {first second : α -> List β}
    {olds news : List α}
    (lengths : List.Forall₂ (fun old new => (first old).length = (second new).length) olds news)
    {old new : α}
    (member : (old, new) ∈ olds.zip news) :
    (first old).zip (second new) ⊆ (olds.flatMap first).zip (news.flatMap second) := by
  induction lengths with
  | nil => cases member
  | cons length _ ih =>
      rw [List.flatMap_cons, List.flatMap_cons, List.zip_append length]
      rcases List.mem_cons.1 member with same | later
      · obtain ⟨rfl, rfl⟩ := Prod.mk.inj same
        exact List.subset_append_left _ _
      · exact List.Subset.trans (ih later) (List.subset_append_right _ _)

theorem RelaidPieces.starts_length
    {old new : Pieces}
    (related : RelaidPieces gap old new) :
    (Piece.starts old).length = (Piece.starts new).length := by
  induction related with
  | nil => rfl
  | cons piece _ ih => cases piece <;> simpa using ih

theorem Relaid.length_ids
    {old new : Tree}
    (related : Relaid styles gap around old new) :
    old.ids.length = new.ids.length := by
  have lengths := related.printed.2.starts_length
  rwa [starts_pieces, starts_pieces] at lengths

/-- The identifiers of the nodes in the same places of two trees. -/
def matched (old new : Tree) : List (Stamp × Stamp) :=
  old.ids.zip new.ids

theorem matched_self (old new : Tree) : (old.id, new.id) ∈ matched old new := by
  rw [matched, Tree.ids_eq, Tree.ids_eq, List.zip_cons_cons]
  exact List.mem_cons_self

/-- Parts in the same place of two trees. -/
structure PartsOf
    (old new : Tree)
    (child : Surroundings -> Tree -> Tree -> Prop)
    (around : Surroundings)
    (part partNew : Tree) : Prop where
  related : child around part partNew
  isPart : part ∈ old.form.children
  isPartNew : partNew ∈ new.form.children
  matched : matched part partNew ⊆ matched old new

/-- The parts of related trees are related, and what is in the same places of them is so in the trees. -/
theorem Relaid.parts
    {old new : Tree}
    (related : Relaid styles gap around old new) :
    RelaidForm styles gap (PartsOf old new (Relaid styles gap)) (around.interior styles old.leading old.form) old.form
      new.form := by
  have form := (relaid_iff.1 related).form
  have lengths : List.Forall₂ (fun old new => (Tree.ids old).length = (Tree.ids new).length) old.form.children
      new.form.children :=
    form.children.imp fun _ _ ⟨_, part⟩ => part.length_ids
  refine form.mono (fun _ _ _ => id) fun part partNew member around relatedPart => ?_
  obtain ⟨isPart, isPartNew⟩ := List.of_mem_zip member
  refine ⟨relatedPart, isPart, isPartNew, ?_⟩
  rw [matched, matched, Tree.ids_eq old, Tree.ids_eq new, List.zip_cons_cons]
  exact List.subset_cons_of_subset _ (zip_subset_flatMap lengths member)

/-- What is printed in front of the nodes in the same place of related pieces is related. -/
theorem RelaidPieces.exists_before
    {old new : Pieces}
    (related : RelaidPieces gap old new)
    (distinct : (Piece.starts old).Nodup)
    (distinctNew : (Piece.starts new).Nodup)
    {id idNew : Stamp}
    (member : (id, idNew) ∈ (Piece.starts old).zip (Piece.starts new)) :
    ∃ before beforeNew, Piece.beforeStart? id old = some before ∧ Piece.beforeStart? idNew new = some beforeNew ∧
      RelaidPieces gap before beforeNew := by
  induction related with
  | nil => cases member
  | @cons first firstNew rest restNew piece _ ih =>
      have later (distinct : (Piece.starts rest).Nodup) (distinctNew : (Piece.starts restNew).Nodup)
          (member : (id, idNew) ∈ (Piece.starts rest).zip (Piece.starts restNew)) (other : id ∉ Piece.starts [first])
          (otherNew : idNew ∉ Piece.starts [firstNew]) :
          ∃ before beforeNew, Piece.beforeStart? id (first :: rest) = some before ∧
            Piece.beforeStart? idNew (firstNew :: restNew) = some beforeNew ∧ RelaidPieces gap before beforeNew := by
        obtain ⟨before, beforeNew, found, foundNew, relatedBefore⟩ := ih distinct distinctNew member
        refine ⟨first :: before, firstNew :: beforeNew, ?_, ?_, .cons piece relatedBefore⟩
        · rw [Piece.beforeStart?_cons other, found, Option.map_some]
        · rw [Piece.beforeStart?_cons otherNew, foundNew, Option.map_some]
      cases piece with
      | space => exact later distinct distinctNew member List.not_mem_nil List.not_mem_nil
      | token => exact later distinct distinctNew member List.not_mem_nil List.not_mem_nil
      | finish => exact later distinct distinctNew member List.not_mem_nil List.not_mem_nil
      | @start started startedNew =>
          rw [Piece.starts_start, List.nodup_cons] at distinct distinctNew
          rw [Piece.starts_start, Piece.starts_start, List.zip_cons_cons] at member
          rcases List.mem_cons.1 member with same | behind
          · obtain ⟨rfl, rfl⟩ := Prod.mk.inj same
            exact ⟨[], [], if_pos rfl, if_pos rfl, .nil⟩
          · obtain ⟨among, amongNew⟩ := List.of_mem_zip behind
            exact later distinct.2 distinctNew.2 behind
              (fun same => distinct.1 (List.mem_singleton.1 same ▸ among))
              (fun same => distinctNew.1 (List.mem_singleton.1 same ▸ amongNew))

/-! ## Spaces inside a unit -/

/-- The spaces of a form that is no unit are inside one, or belong to its children. -/
theorem mem_slots_of_isInner
    {below : Tree -> List (SpacePlace × Space)}
    {form : Form Tree}
    (isInner : form.isUnit = false)
    {gap : SpacePlace × Space}
    (member : gap ∈ form.slots below) :
    SpacePlace.IsInner gap.1 ∨ ∃ child, child ∈ form.children ∧ gap ∈ below child := by
  cases form with
  | compilationUnit => cases isInner
  | _ =>
      simp only [Form.slots, Form.children, paddedSlots, operandSlots, containerSlots, RightPadded.elements,
        Container.elements, List.mem_append, List.mem_flatMap, List.mem_cons, List.not_mem_nil, or_false,
        Option.mem_toList, List.mem_map] at member ⊢
      all_goals grind [SpacePlace.IsInner, ElementPlace.after, OperandPlace.before, ContainerPlace.before,
        ContainerPlace.element]

/-- Below a unit all spaces are inside one. -/
theorem isInner_of_mem_slots
    {tree : Tree}
    (canonical : tree.IsCanonical)
    (isInner : tree.form.isUnit = false)
    {gap : SpacePlace × Space}
    (member : gap ∈ tree.slots) :
    SpacePlace.IsInner gap.1 := by
  induction tree using Tree.induction with
  | step head form ih =>
      rw [Tree.slots_node, List.mem_cons] at member
      rcases member with rfl | member
      · exact leadingPlace_isInner isInner
      · rcases mem_slots_of_isInner isInner member with areInner | ⟨child, isChild, below⟩
        · exact areInner
        · exact ih child isChild (canonical.part isChild).canonical (canonical.root.fits.isUnit_child child isChild) below

theorem isInner_of_mem_spaces
    {pieces : Pieces}
    {slots : List (SpacePlace × Space)}
    (printed : pieces.slots = slots)
    (areInner : forall gap, gap ∈ slots -> SpacePlace.IsInner gap.1)
    {gap : SpacePlace × Space}
    (member : gap ∈ Piece.spaces pieces) :
    SpacePlace.IsInner gap.1 := by
  by_cases isSlot : gap.1.isSlot = true
  · refine areInner gap ?_
    rw [← printed]
    exact List.mem_filter.2 ⟨member, isSlot⟩
  · refine ⟨fun same => isSlot ?_, fun same => isSlot ?_⟩
    · rw [same]
      rfl
    · rw [same]
      rfl

/-- What is printed in front of a node, behind the space before the tree, stands inside a unit. -/
theorem isInner_of_before
    {tree : Tree}
    (canonical : tree.IsCanonical)
    {id : Stamp}
    {before : Pieces}
    (found : Piece.beforeStart? id (tree.pieces .java).tail = some before)
    {gap : SpacePlace × Space}
    (member : gap ∈ Piece.spaces before) :
    SpacePlace.IsInner gap.1 := by
  have amongPieces {pieces : Pieces} (found : Piece.beforeStart? id pieces = some before) : gap ∈ Piece.spaces pieces := by
    obtain ⟨behind, rfl⟩ := Piece.exists_behind found
    rw [Piece.spaces_append]
    exact List.mem_append_left _ member
  obtain ⟨head, form⟩ := tree
  cases isUnit : form.isUnit with
  | false =>
      refine isInner_of_mem_spaces (slots_pieces .java _) (fun _ => isInner_of_mem_slots canonical isUnit) ?_
      rw [Tree.pieces_node] at found ⊢
      exact List.mem_cons_of_mem _ (amongPieces found)
  | true =>
      cases form with
      | compilationUnit dialect source statements eof =>
          rw [Tree.pieces_node, List.tail_cons, Form.map, Pieces.form, List.append_assoc, ← List.cons_append] at found
          let printed := (statements.map (·.map (Tree.printed .java))).flatMap (Pieces.statement .java .compilationUnitStatement)
          have statementsPrint : Pieces.slots printed = statements.flatMap (paddedSlots Tree.slots .compilationUnitStatement) :=
            slots_statements .compilationUnitStatement fun child _ => slots_pieces .java child
          have present : id ∈ Piece.starts (.start head.id head.markers :: printed) := by
            have started := Piece.isSome_beforeStart?.1 (Option.isSome_of_eq_some found)
            rw [Piece.starts_append] at started
            exact (List.mem_append.1 started).resolve_right List.not_mem_nil
          rw [Piece.beforeStart?_append_of_mem present] at found
          have among := amongPieces found
          rw [Piece.spaces_start] at among
          refine isInner_of_mem_spaces statementsPrint (fun gap isSlot => ?_) among
          obtain ⟨padded, isStatement, isSlot⟩ := List.mem_flatMap.1 isSlot
          rcases List.mem_append.1 isSlot with below | after
          · have isChild : padded.element ∈ RightPadded.elements statements := List.mem_map_of_mem isStatement
            exact isInner_of_mem_slots (canonical.part isChild).canonical (canonical.root.fits.isUnit_child _ isChild) below
          · obtain rfl := List.mem_singleton.1 after
            exact ⟨nofun, nofun⟩
      | _ => cases isUnit

/-! ## Fronts -/

section Fronts

variable {old new : Tree} {before beforeNew : Pieces}

/-- Spaces in front of a node are related and inside a unit. -/
theorem RelaidPieces.areInner
    (related : RelaidPieces gap before beforeNew)
    (areInner : forall space, space ∈ Piece.spaces before -> SpacePlace.IsInner space.1) :
    RelaidPieces (fun slot old new => gap slot old new ∧ SpacePlace.IsInner slot.place) before beforeNew := by
  induction related with
  | nil => exact .nil
  | cons piece _ ih =>
      cases piece with
      | space related =>
          obtain ⟨here, later⟩ := List.forall_mem_cons.1 areInner
          exact .cons (.space ⟨related, here⟩) (ih later)
      | token => exact .cons .token (ih areInner)
      | start unmarked unmarkedNew => exact .cons (.start unmarked unmarkedNew) (ih areInner)
      | finish => exact .cons .finish (ih areInner)

/-- Texts in a line are alike when the spaces in them are. -/
theorem RelaidPieces.renderAll_inLine
    {alike : Text -> Text -> Prop}
    (same : forall text, '\n' ∉ text -> alike text text)
    (append : forall {first firstNew second secondNew : Text}, alike first firstNew -> alike second secondNew ->
      alike (first ++ second) (firstNew ++ secondNew))
    (spaces : forall slot old new, gap slot old new -> '\n' ∉ old.render .slash ->
      alike (old.render .slash) (new.render .slash))
    (related : RelaidPieces gap before beforeNew)
    (oneLine : '\n' ∉ Piece.renderAll .slash .hidden before) :
    alike (Piece.renderAll .slash .hidden before) (Piece.renderAll .slash .hidden beforeNew) := by
  induction related with
  | nil => exact same _ oneLine
  | cons piece _ ih =>
      rw [Piece.renderAll_cons, List.mem_append, not_or] at oneLine
      rw [Piece.renderAll_cons, Piece.renderAll_cons]
      refine append ?_ (ih oneLine.2)
      cases piece with
      | space related => exact spaces _ _ _ related oneLine.1
      | token => exact same _ oneLine.1
      | start => exact same _ oneLine.1
      | finish => exact same _ oneLine.1

/-- A front in a line and the front in the same place of a related tree are alike when spaces in a line are. -/
theorem Relaid.front_inLine
    (alike : Text -> Text -> Prop)
    (same : forall text, '\n' ∉ text -> alike text text)
    (append : forall {first firstNew second secondNew : Text}, alike first firstNew -> alike second secondNew ->
      alike (first ++ second) (firstNew ++ secondNew))
    (spaces : forall slot old new, gap slot old new -> SpacePlace.IsInner slot.place -> '\n' ∉ old.render .slash ->
      alike (old.render .slash) (new.render .slash))
    (related : Relaid styles gap around old new)
    (canonical : old.IsCanonical)
    (distinct : old.ids.Nodup)
    (distinctNew : new.ids.Nodup)
    {id idNew : Stamp}
    (member : (id, idNew) ∈ matched old new)
    {front : Text}
    (inFront : old.front? id = some front)
    (oneLine : '\n' ∉ front) :
    ∃ frontNew, new.front? idNew = some frontNew ∧ alike front frontNew := by
  have pieces : RelaidPieces gap (old.pieces .java).tail (new.pieces .java).tail := by
    have related := related.printed.2
    obtain ⟨head, form⟩ := old
    obtain ⟨headNew, formNew⟩ := new
    rw [Tree.pieces_node, Tree.pieces_node] at related ⊢
    cases related with
    | cons _ others => exact others
  rw [matched, ← starts_tail, ← starts_tail] at member
  rw [← starts_tail] at distinct distinctNew
  obtain ⟨before, beforeNew, found, foundNew, relatedBefore⟩ := pieces.exists_before distinct distinctNew member
  rw [Tree.front?, Piece.textBefore?, found] at inFront
  obtain rfl := Option.some.inj inFront
  refine ⟨_, congrArg (Option.map _) foundNew, ?_⟩
  exact (relatedBefore.areInner fun _ => isInner_of_before canonical found).renderAll_inLine same append
    (fun slot old new related => spaces slot old new related.1 related.2) oneLine

end Fronts

/-! ## Lists in a line -/

/-- The list of a node whose wrapped elements are to stand below the first one. -/
def alignedList? (style : IndentStyle) : Form Tree -> Option (Container Tree)
  | .call _ _ arguments _ => if style.alignArguments then some arguments else none
  | .declaration _ _ parameters _ => if style.alignParameters then some parameters else none
  | _ => none

/-- Neither a comma nor an element but the first one comes after a line break. -/
def isInLine : List (RightPadded Tree) -> Bool
  | [] => true
  | [last] => !(hasTrailingComma last && last.after.containsNewline)
  | padded :: next :: rest =>
      !padded.after.containsNewline && !next.element.leading.containsNewline && isInLine (next :: rest)

theorem isInLine_cons
    {padded second : RightPadded Tree}
    {rest : List (RightPadded Tree)}
    (inLine : isInLine (padded :: second :: rest) = true) :
    padded.after.containsNewline = false ∧ second.element.leading.containsNewline = false ∧
      isInLine (second :: rest) = true := by
  simpa [isInLine, and_assoc] using inLine

section Layouts

variable {child : Surroundings -> Tree -> Tree -> Prop} {inside : Interior} {layout : ListLayout}
variable (lines : KeepsLines gap)

include lines

theorem RelaidLast.isInLine_eq
    {old new : RightPadded Tree}
    (related : RelaidLast gap child layout around old new) :
    isInLine [new] = isInLine [old] := by
  cases related with
  | plain padded =>
      rw [isInLine, isInLine, hasTrailingComma_of_unmarked padded.unmarked,
        hasTrailingComma_of_unmarked padded.unmarkedNew]
      rfl
  | comma _ after only isComma onlyNew isCommaNew =>
      rw [isInLine, isInLine, hasTrailingComma_of_comma only isComma, hasTrailingComma_of_comma onlyNew isCommaNew,
        lines after]

theorem Relaid.leading_containsNewline
    {old new : Tree}
    (related : Relaid styles gap around old new) :
    new.leading.containsNewline = old.leading.containsNewline :=
  lines (relaid_iff.1 related).leading

variable (heads : forall around old new, child around old new ->
  new.leading.containsNewline = old.leading.containsNewline)

include heads

theorem RelaidElements.isInLine_eq
    {blank : Bool}
    {olds news : List (RightPadded Tree)}
    (related : RelaidElements gap child layout inside blank olds news) :
    isInLine news = isInLine olds := by
  induction related with
  | last last => exact last.isInLine_eq lines
  | cons first others ih =>
      have after := congrArg not (lines first.after)
      cases others with
      | last last => exact congrArg₂ and (congrArg₂ and after (congrArg not (heads _ _ _ last.element))) ih
      | cons second => exact congrArg₂ and (congrArg₂ and after (congrArg not (heads _ _ _ second.element))) ih

theorem RelaidContainer.isInLine_eq
    {old new : Container Tree}
    (related : RelaidContainer styles gap child layout inside old new) :
    isInLine new.padded = isInLine old.padded := by
  obtain ⟨before, olds, markers⟩ := old
  obtain ⟨before', news, markers'⟩ := new
  rcases related.padded with none | ⟨-, -, elements⟩
  · cases none with
    | only _ _ padded =>
        rw [isInLine, isInLine, hasTrailingComma_of_unmarked padded.unmarked,
          hasTrailingComma_of_unmarked padded.unmarkedNew]
        rfl
  · exact elements.isInLine_eq lines heads

end Layouts

/-- The list of a node is laid out anew as one list. -/
theorem RelaidForm.alignedList?
    {child : Surroundings -> Tree -> Tree -> Prop}
    {inside : Interior}
    {style : IndentStyle}
    {old new : Form Tree}
    (related : RelaidForm styles gap child inside old new)
    {list : Container Tree}
    (aligned : alignedList? style new = some list) :
    ∃ before layout interior, Format.alignedList? style old = some before ∧
      RelaidContainer styles gap child layout interior before list := by
  cases related with
  | plainCall _ arguments =>
      obtain ⟨aligns, same⟩ := Option.ite_none_right_eq_some.1 aligned
      obtain rfl := Option.some.inj same
      exact ⟨_, _, _, if_pos aligns, arguments⟩
  | call _ _ _ arguments =>
      obtain ⟨aligns, same⟩ := Option.ite_none_right_eq_some.1 aligned
      obtain rfl := Option.some.inj same
      exact ⟨_, _, _, if_pos aligns, arguments⟩
  | declaration _ _ parameters =>
      obtain ⟨aligns, same⟩ := Option.ite_none_right_eq_some.1 aligned
      obtain rfl := Option.some.inj same
      exact ⟨_, _, _, if_pos aligns, parameters⟩
  | _ => cases aligned

/-! ## Lists on a line -/

/-- Nothing is measured for a list, or its first element starts a line or goes on in the line of a node. -/
def alignsOnLine
    (style : IndentStyle)
    (line node : Tree) : Bool :=
  (alignedList? style node.form).all fun list =>
    isInLine list.padded || list.elements.head?.all fun first =>
      first.startsLine || (line.front? first.id).any fun front => !front.contains '\n'

/-- Every list that is measured in a tree on a line goes on in the line that it stands on. -/
def alignsOnLines
    (style : IndentStyle)
    (line tree : Tree) : Bool :=
  (line.nodesOnLines tree).all fun place => alignsOnLine style place.1 place.2

theorem alignsOnLines_iff
    {style : IndentStyle}
    {line tree : Tree} :
    alignsOnLines style line tree = true ↔ alignsOnLine style (line.lineInside tree) tree = true ∧
      forall child, child ∈ tree.form.children -> alignsOnLines style (line.lineInside tree) child = true := by
  obtain ⟨head, form⟩ := tree
  unfold alignsOnLines
  rw [Tree.nodesOnLines_node, List.all_cons, Bool.and_eq_true, List.all_flatMap]
  simp

/-- Whatever is in a line in front of a node is so in the other tree. -/
def FrontsAlike (pairs : List (Stamp × Stamp)) (line lineNew : Tree) : Prop :=
  forall id idNew, (id, idNew) ∈ pairs -> forall front, line.front? id = some front -> '\n' ∉ front ->
    ∃ frontNew, lineNew.front? idNew = some frontNew ∧ '\n' ∉ frontNew

section Transfer

variable {style : IndentStyle} {old new line lineNew : Tree}
variable (alike : forall slot old new, gap slot old new -> LineAlike old new)

include alike

theorem Relaid.frontsAlike
    (related : Relaid styles gap around old new)
    (canonical : old.IsCanonical)
    (distinct : old.ids.Nodup)
    (distinctNew : new.ids.Nodup) :
    FrontsAlike (matched old new) old new := by
  intro id idNew member front inFront oneLine
  refine related.front_inLine (fun _ new => '\n' ∉ new) (fun _ oneLine => oneLine) ?_ ?_ canonical distinct
    distinctNew member inFront oneLine
  · intro _ _ _ _ first second
    rw [List.mem_append, not_or]
    exact ⟨first, second⟩
  · exact fun slot old new related _ => (alike slot old new related).inLine

theorem Relaid.alignsOnLine
    (related : Relaid styles gap around old new)
    (fronts : FrontsAlike (matched old new) line lineNew)
    (onLine : alignsOnLine style line old = true) :
    alignsOnLine style lineNew new = true := by
  rw [Format.alignsOnLine, Option.all_eq_true] at onLine ⊢
  intro listNew aligned
  obtain ⟨list, layout, interior, alignedOld, container⟩ := related.parts.alignedList? aligned
  have keeps : KeepsLines gap := fun related => (alike _ _ _ related).lines
  have inLine : isInLine listNew.padded = isInLine list.padded :=
    container.isInLine_eq keeps fun _ _ _ part => part.related.leading_containsNewline keeps
  have children := container.children
  have here := onLine list alignedOld
  rw [Bool.or_eq_true] at here ⊢
  refine here.imp inLine.trans fun measured => ?_
  generalize list.elements = olds at children measured
  generalize listNew.elements = news at children
  cases children with
  | nil => rfl
  | @cons first firstNew _ _ part _ =>
      obtain ⟨_, part⟩ := part
      simp only [List.head?_cons, Option.all_some, Bool.or_eq_true] at measured ⊢
      refine measured.imp (fun starts => ?_) fun goesOn => ?_
      · exact (alike _ _ _ (relaid_iff.1 part.related).leading).last.trans starts
      · obtain ⟨front, inFront, oneLine⟩ := (Option.any_eq_true ..).1 goesOn
        obtain ⟨frontNew, inFrontNew, oneLineNew⟩ :=
          fronts _ _ (part.matched (matched_self first firstNew)) front inFront (by simpa using oneLine)
        rw [inFrontNew]
        simpa using oneLineNew

/-- What is in a line inside two nodes in the same place is in a line in front of the same nodes. -/
theorem Relaid.frontsInside
    (related : Relaid styles gap around old new)
    (canonical : old.IsCanonical)
    (distinct : old.ids.Nodup)
    (distinctNew : new.ids.Nodup)
    (fronts : FrontsAlike (matched old new) line lineNew) :
    FrontsAlike (matched old new) (line.lineInside old) (lineNew.lineInside new) := by
  have starts : new.startsLine = old.startsLine := (alike _ _ _ (relaid_iff.1 related).leading).last
  rw [Tree.lineInside, Tree.lineInside, starts]
  split
  · exact related.frontsAlike alike canonical distinct distinctNew
  · exact fronts

/-- Where lists are measured on their lines, they are so in a tree that is laid out alike. -/
theorem Relaid.alignsOnLines
    (related : Relaid styles gap around old new)
    (canonical : old.IsCanonical)
    (distinct : old.ids.Nodup)
    (distinctNew : new.ids.Nodup)
    (fronts : FrontsAlike (matched old new) line lineNew)
    (onLines : alignsOnLines style line old = true) :
    alignsOnLines style lineNew new = true := by
  induction old using Tree.induction generalizing around new line lineNew with
  | step head form ih =>
      obtain ⟨here, below⟩ := alignsOnLines_iff.1 onLines
      have inside := related.frontsInside alike canonical distinct distinctNew fronts
      refine alignsOnLines_iff.2 ⟨related.alignsOnLine alike inside here, fun partNew isPartNew => ?_⟩
      obtain ⟨part, isPart, _, atPart⟩ := exists_of_forall₂ related.parts.children isPartNew
      have distinctPart := Indents.nodup_ids_of_mem_nodes distinct
        (Tree.mem_nodes_of_mem_children isPart (Tree.mem_nodes_self _))
      have distinctPartNew := Indents.nodup_ids_of_mem_nodes distinctNew
        (Tree.mem_nodes_of_mem_children isPartNew (Tree.mem_nodes_self _))
      exact ih part isPart atPart.related (canonical.part isPart).canonical distinctPart distinctPartNew
        (fun id idNew member => inside id idNew (atPart.matched member)) (below part isPart)

end Transfer

end Format
end Lossless
