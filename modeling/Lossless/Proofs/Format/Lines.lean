import Lossless.Proofs.Format.Column
import Lossless.Proofs.Java.Reported

/-!
# Lines among the frames

A node that starts a line notes on its frame the column in which it stands. The first element of a list that is on the
line of such a node is measured from there, by the text that is printed in front of it. While the parts of a node are
visited, the nodes among the frames and the columns of their lines stay as they are, whatever else is noted there. So
every visit below a node finds the line of the node, unless a node in between starts one of its own.
-/

namespace Lossless
namespace Java

/-! ## What is printed in front of a node -/

namespace Tree

/-- What is printed of a tree, behind the space before it and in front of the syntax of a node in it. -/
def front?
    (tree : Tree)
    (id : Stamp) : Option Text :=
  Piece.textBefore? .slash .hidden id (tree.pieces .java).tail

/-- The space before a tree is printed in front of everything in it. -/
theorem textBefore?_eq
    (tree : Tree)
    (id : Stamp) :
    Piece.textBefore? .slash .hidden id (tree.pieces .java) =
      (tree.front? id).map (tree.leading.render .slash ++ ·) := by
  obtain ⟨head, form⟩ := tree
  have absent : id ∉ Piece.starts [.space form.leadingPlace head.leading] := List.not_mem_nil
  rw [front?, pieces_node, ← List.singleton_append, Piece.textBefore?_append_of_notMem absent]
  refine congrArg (Option.map · _) (funext fun text => ?_)
  rw [Piece.renderAll_cons, Piece.renderAll_nil, List.append_nil]
  rfl

end Tree

section Fronts

variable {tree owner node child : Tree} {pieces : Pieces}

theorem starts_tail (tree : Tree) : Piece.starts (tree.pieces .java).tail = tree.ids := by
  have starts : Piece.starts (tree.pieces .java) = tree.ids := starts_pieces tree
  obtain ⟨head, form⟩ := tree
  rw [Tree.pieces_node] at starts ⊢
  exact starts

/-- In front of a node in an owner comes what is printed before the owner, and the space before the owner. -/
theorem exists_textBefore
    (distinct : (Piece.starts pieces).Nodup)
    (within : owner.pieces .java <:+: pieces)
    (member : node ∈ owner.nodes) :
    ∃ before front, owner.front? node.id = some front ∧
      Piece.textBefore? .slash .hidden node.id pieces = some (before ++ (owner.leading.render .slash ++ front)) := by
  obtain ⟨before, after, split⟩ := within
  have isId : node.id ∈ owner.ids := List.mem_map_of_mem member
  have started : node.id ∈ Piece.starts (owner.pieces .java) := starts_pieces owner ▸ isId
  have some : (owner.front? node.id).isSome = true := by
    rw [Tree.front?, Piece.textBefore?, Option.isSome_map, Piece.isSome_beforeStart?, starts_tail]
    exact isId
  obtain ⟨front, inFront⟩ := Option.isSome_iff_exists.1 some
  refine ⟨Piece.renderAll .slash .hidden before, front, inFront, ?_⟩
  rw [Piece.textBefore?_of_infix distinct split started, owner.textBefore?_eq, inFront]
  rfl

/-- What is printed in front of a node below a tree, from the first token of the tree on. -/
theorem exists_front_of_below
    (distinct : tree.ids.Nodup)
    (isChild : child ∈ tree.form.children)
    (isOwner : owner ∈ child.nodes)
    (member : node ∈ owner.nodes) :
    ∃ before front, owner.front? node.id = some front ∧
      tree.front? node.id = some (before ++ (owner.leading.render .slash ++ front)) := by
  refine exists_textBefore (starts_tail tree ▸ distinct) ?_ member
  obtain ⟨head, form⟩ := tree
  rw [Tree.pieces_node]
  exact (Tree.pieces_infix .java isOwner).trans (List.infix_cons (infix_left (infix_form isChild)))

theorem front?_self (tree : Tree) : tree.front? tree.id = some [] := by
  obtain ⟨head, form⟩ := tree
  rw [Tree.front?, Tree.pieces_node]
  exact congrArg (Option.map _) (if_pos rfl)

end Fronts

end Java

namespace Format
namespace Indents

open Java VisitM

/-! ## Lines -/

/-- The nodes among frames, innermost first, each with the column in which it stands if it starts a line. -/
def linesAmong (frames : List (Frame TreeFrame)) : List (Tree × Option Nat) :=
  frames.filterMap fun frame =>
    frame.value.tree?.map fun tree => (tree, frame.messages.read? Message.column? lineStartKey)

/-- The nodes on the stack with the columns of their lines. -/
def lines (cursor : TreeCursor) : List (Tree × Option Nat) :=
  linesAmong cursor.frames

theorem linesAmong_cons
    (frame : Frame TreeFrame)
    (frames : List (Frame TreeFrame)) :
    linesAmong (frame :: frames) = linesAmong [frame] ++ linesAmong frames :=
  List.filterMap_append (l := [frame]) ..

theorem linesAmong_cons_padding
    {frame : Frame TreeFrame}
    {place : PaddingFrame}
    (isPadding : frame.value = .padding place)
    (frames : List (Frame TreeFrame)) :
    linesAmong (frame :: frames) = linesAmong frames := by
  rw [linesAmong, List.filterMap_cons, isPadding]
  rfl

/-- The frame of a padding leaves the lines as they are. -/
theorem lines_push
    (cursor : TreeCursor)
    (place : PaddingFrame) :
    lines (cursor.push (.padding place)) = lines cursor :=
  linesAmong_cons_padding rfl _

section Messages

variable {key : Text} {message : Message} {style : IndentStyle} {cursor : TreeCursor}

/-- A message under another key leaves the lines as they are. -/
theorem lines_putMessageBelow
    (differ : key ≠ lineStartKey)
    (steps : Nat) :
    lines (cursor.putMessageBelow key message steps) = lines cursor := by
  rw [lines, Cursor.frames_putMessageBelow, lines]
  generalize cursor.frames = frames
  induction frames generalizing steps with
  | nil => rw [List.modify_nil]
  | cons first rest ih =>
      cases steps with
      | zero =>
          rw [List.modify_zero_cons, linesAmong_cons, linesAmong_cons first]
          refine congrArg (· ++ _) ?_
          simp only [linesAmong, List.filterMap_cons, Messages.read?_put, if_neg differ]
      | succ steps => rw [List.modify_succ_cons, linesAmong_cons, ih, ← linesAmong_cons]

theorem lines_putMessage (differ : key ≠ lineStartKey) : lines (cursor.putMessage key message) = lines cursor :=
  lines_putMessageBelow differ 0

theorem lines_noteChain (cursor : TreeCursor) : lines (noteChain style cursor) = lines cursor := by
  unfold noteChain
  split
  · rfl
  · exact lines_putMessageBelow (by decide) _

/-- Between nodes, a space leaves the lines as they are. -/
theorem lines_spaceCursor
    {place : SpacePlace}
    (isBetween : place.isTreePrefix = false)
    (space : Space) :
    lines (spaceCursor style place space cursor) = lines cursor := by
  unfold spaceCursor wrappedCursor notedFor
  rw [isBetween]
  split
  · rw [if_neg (by simp)]
    split
    · rw [lines_putMessage (by decide), lines_noteChain]
    · rfl
  · rfl

end Messages

/-! ## The line of a node -/

/-- The column that a node notes for its line, if it starts one. -/
def startColumn?
    (styles : Styles)
    (around : Surroundings)
    (tree : Tree) : Option Nat :=
  if tree.form.isUnit then some 0
  else if tree.leading.lastWhitespace.contains '\n' then some (around.slot styles tree.form).column
  else none

/-- The frames of a node once the space before it is indented, in front of its parts. -/
def lineCursor
    (style : IndentStyle)
    (cursor : TreeCursor)
    (tree : Tree) : TreeCursor :=
  spaceCursor style tree.form.leadingPlace tree.leading (enteredCursor style tree (cursor.push (.tree tree)))

/-- Inside a node its own line comes first. -/
theorem lines_lineCursor
    {styles : Styles}
    {cursor : TreeCursor}
    {around : Surroundings}
    (reads : Reads styles.indents cursor around)
    (tree : Tree) :
    lines (lineCursor styles.indents cursor tree) = (tree, startColumn? styles around tree) :: lines cursor := by
  have onTop (messages : Messages) : lines ⟨⟨.tree tree, messages⟩, cursor.frames⟩ =
      (tree, messages.read? Message.column? lineStartKey) :: lines cursor := rfl
  have differ : nestingKey ≠ lineStartKey := by decide
  cases isUnit : tree.form.isUnit with
  | true =>
      rw [lineCursor, enteredCursor_of_isUnit isUnit, leadingPlace_of_isUnit isUnit, spaceCursor, if_neg (by simp), onTop,
        startColumn?, if_pos isUnit]
      simp [Messages.read?_put, differ, Message.column?]
  | false =>
      obtain ⟨isPrefix, noSegment⟩ := leadingPlace_isTreePrefix tree.form
      have noUnit := (leadingPlace_isInner isUnit).1
      have notUnit := ne_true_of_eq_false isUnit
      rw [lineCursor, startColumn?, if_neg notUnit, spaceCursor]
      cases starts : tree.leading.lastWhitespace.contains '\n' with
      | true =>
          rw [if_pos ⟨noUnit, containsNewline_of_lastWhitespace starts⟩, wrappedCursor, columnAt_entered reads isUnit,
            notedFor, if_neg noSegment, if_pos isPrefix, if_pos starts, if_pos rfl, enteredCursor_of_isInner isUnit,
            Cursor.putMessage, Cursor.putMessage, onTop]
          simp [Messages.read?_put, Message.column?]
      | false =>
          have notStarts := ne_true_of_eq_false starts
          rw [if_neg Bool.false_ne_true]
          split
          · rw [wrappedCursor, columnAt_entered reads isUnit, notedFor, if_neg noSegment, if_pos isPrefix,
              if_neg notStarts, enteredCursor_of_isInner isUnit, Cursor.putMessage, onTop]
            simp [Messages.read?_put, differ, keys_differ.2.2.2.2.1.symm]
          · rw [enteredCursor_of_isInner isUnit, onTop]
            simp [Messages.read?_put, differ]

/-! ## What is measured from a line -/

/-- The dialect of the innermost unit among nodes; Java when there is none. -/
def dialectAmong (below : List (Tree × Option Nat)) : Dialect :=
  ((below.map Prod.fst).find? Tree.isSource |>.bind Tree.dialect?).getD .java

theorem dialectAmong_lines (cursor : TreeCursor) : enclosingDialect cursor = dialectAmong (lines cursor) := by
  have trees : cursor.trees = (lines cursor).map Prod.fst := by
    rw [Cursor.trees, Cursor.values, List.filterMap_map, lines, linesAmong, List.map_filterMap]
    refine List.filterMap_congr fun frame _ => ?_
    rw [Option.map_map]
    exact Option.map_id'.symm
  rw [enclosingDialect, Cursor.firstEnclosing?, trees]
  rfl

/-- The innermost node that starts a line is found among the frames. -/
theorem exists_frame_of_find
    {frames : List (Frame TreeFrame)}
    {tree : Tree}
    {column : Nat}
    (nearest : (linesAmong frames).find? (·.2.isSome) = some (tree, some column)) :
    ∃ frame, frames.find? (fun frame => frame.value.tree?.isSome &&
        (frame.messages.read? Message.column? lineStartKey).isSome) = some frame ∧
      frame.value.tree? = some tree ∧ frame.messages.read? Message.column? lineStartKey = some column := by
  induction frames with
  | nil => cases nearest
  | cons first rest ih =>
      rw [linesAmong, List.filterMap_cons] at nearest
      rw [List.find?_cons]
      cases isNode : first.value.tree? with
      | none =>
          rw [isNode] at nearest
          exact ih nearest
      | some node =>
          rw [isNode, Option.map_some, List.find?_cons] at nearest
          cases starts : first.messages.read? Message.column? lineStartKey with
          | none =>
              rw [starts] at nearest
              exact ih nearest
          | some start =>
              rw [starts] at nearest
              obtain ⟨rfl, same⟩ := Prod.mk.inj (Option.some.inj nearest)
              exact ⟨first, rfl, isNode, starts.trans same⟩

/-- A node that stands behind a front in one line is as far from the start of the line. -/
theorem columnInLine?_eq
    {owner : TreeCursor}
    {tree : Tree}
    {column : Nat}
    {first : Stamp}
    {front : Text}
    (nearest : (lines owner).find? (·.2.isSome) = some (tree, some column))
    (isJava : dialectAmong (lines owner) = .java)
    (inFront : tree.front? first = some front)
    (oneLine : '\n' ∉ front) :
    Exact.columnInLine? owner first = some (column + front.length) := by
  obtain ⟨frame, found, isNode, starts⟩ := exists_frame_of_find nearest
  rw [← map_top_ancestors, List.find?_map, Option.map_eq_some_iff] at found
  obtain ⟨anchor, found, rfl⟩ := found
  have atAnchor : owner.ancestors.find? (fun ancestor =>
      ancestor.tree?.isSome && (ancestor.message? Message.column? lineStartKey).isSome) = some anchor := found
  have before : Piece.textBefore? Dialect.java.delimiters .hidden first (tree.pieces .java) =
      some (tree.leading.render .slash ++ front) := by
    rw [← Option.map_some, ← inFront]
    exact tree.textBefore?_eq first
  have segment : (tree.leading.render .slash ++ front).drop (tree.leading.render Dialect.java.delimiters).length = front :=
    List.drop_left
  have inLine : ¬front.contains '\n' = true := by simpa using oneLine
  rw [Exact.columnInLine?, atAnchor, dialectAmong_lines, isJava]
  simp only [Option.bind_eq_bind, Option.bind_some]
  rw [show anchor.message? Message.column? lineStartKey = some column from starts, Option.bind_some,
    show anchor.tree? = some tree from isNode, Option.bind_some, before, Option.bind_some, segment, if_neg inLine]
  rfl

end Indents
end Format
end Lossless
