import Lossless.Java.Pieces

/-!
# Written trees

The text of a tree in the Java dialect, as equations over the forms. `Form.written` is the text of a node
without the space before it; it does not depend on the head of the node.

The pieces of a node stand together in those of every tree that it is in. So a node splits a printed tree in
what is printed up to its end and what is printed behind it.
-/

namespace Lossless
namespace Java

/-! ## Pieces and text -/

namespace Tree

/-- The text of a tree in the Java dialect, with the space before it. -/
def written (tree : Tree) : Text := tree.printIn .java

/-- A child with its pieces. -/
def printed
    (dialect : Dialect)
    (tree : Tree) : Pieces.Printed :=
  (tree, tree.pieces dialect)

theorem pieces_node
    (dialect : Dialect)
    (head : Head)
    (form : Form Tree) :
    (node head form).pieces dialect =
      .space form.leadingPlace head.leading :: .start head.id head.markers ::
        (Pieces.form dialect (form.map (printed dialect)) ++ [.finish head.id]) := by
  rw [pieces, recurse_node]
  have place : (form.map (printed dialect)).leadingPlace = form.leadingPlace := by
    cases form <;> rfl
  rw [← place]
  rfl

end Tree

namespace Form

/-- The text of a form in the Java dialect, without the space before it. -/
def written (form : Form Tree) : Text :=
  Piece.renderAll .slash .hidden (Pieces.form .java (form.map (Tree.printed .java)))

end Form

namespace Tree

theorem written_eq (tree : Tree) :
    tree.written = tree.leading.render .slash ++ tree.form.written := by
  obtain ⟨head, form⟩ := tree
  rw [written, printIn, pieces_node]
  simp [Piece.render, Markers.render, Form.written, Dialect.delimiters, leading, Tree.head,
    Tree.form]

end Tree

/-! ### Padded elements -/

/-- The text of a statement with its padding and its semicolon. -/
def writtenStatement (padded : RightPadded Tree) : Text :=
  padded.element.written ++ padded.after.render .slash ++
    if Dialect.java.needsSemicolon padded then [';'] else []

/-- The text of statements one after the other. -/
def writtenStatements (statements : List (RightPadded Tree)) : Text :=
  statements.flatMap writtenStatement

/-- The comma after the last element of a list and the space after it. -/
def writtenTrailingComma (markers : Markers Space) : Text :=
  match markers.findFirst? Fact.trailingComma? with
  | some suffix => ',' :: suffix.render .slash
  | none => []

/-- The text of the elements of a list, with a comma between any two. -/
def writtenElements : List (RightPadded Tree) -> Text
  | [] => []
  | [last] =>
      last.element.written ++ last.after.render .slash ++ writtenTrailingComma last.markers
  | padded :: rest =>
      padded.element.written ++ padded.after.render .slash ++ ',' :: writtenElements rest

/-- The text of a delimited list. -/
def writtenContainer
    (delimiters : Text × Text)
    (list : Container Tree) : Text :=
  list.before.render .slash ++ (delimiters.1 ++ (writtenElements list.padded ++ delimiters.2))

/-- The text of the receiver of a call with its dot. -/
def writtenReceiver : Option (RightPadded Tree) -> Text
  | none => []
  | some padded => padded.element.written ++ padded.after.render .slash ++ ['.']

/-- The text of a child that may be absent. -/
def writtenOption : Option Tree -> Text
  | none => []
  | some child => child.written

section Pieces

variable (place : ElementPlace)

@[simp] theorem fst_printed (child : Tree) : (child.printed .java).1 = child := rfl

@[simp] theorem renderAll_printed (child : Tree) :
    Piece.renderAll .slash .hidden (child.printed .java).2 = child.written := rfl

@[simp] theorem renderAll_statement (padded : RightPadded Tree) :
    Piece.renderAll .slash .hidden
      (Pieces.statement .java place (padded.map (Tree.printed .java))) =
        writtenStatement padded := by
  have back : (padded.map (Tree.printed .java)).map Prod.fst = padded := rfl
  unfold Pieces.statement writtenStatement
  rw [back]
  cases Dialect.java.needsSemicolon padded <;> simp [Piece.render, Pieces.symbol]

@[simp] theorem renderAll_statements (statements : List (RightPadded Tree)) :
    Piece.renderAll .slash .hidden
      ((statements.map (·.map (Tree.printed .java))).flatMap (Pieces.statement .java place)) =
        writtenStatements statements := by
  induction statements with
  | nil => rfl
  | cons first rest ih =>
      rw [List.map_cons, List.flatMap_cons, Piece.renderAll_append, renderAll_statement, ih]
      rfl

@[simp] theorem renderAll_trailingComma (markers : Markers Space) :
    Piece.renderAll .slash .hidden (Pieces.trailingComma markers) =
      writtenTrailingComma markers := by
  unfold Pieces.trailingComma writtenTrailingComma
  cases markers.findFirst? Fact.trailingComma? <;> simp [Piece.render, Pieces.symbol]

@[simp] theorem renderAll_listElements (list : List (RightPadded Tree)) :
    Piece.renderAll .slash .hidden
      (Pieces.listElements place (list.map (·.map (Tree.printed .java)))) =
        writtenElements list := by
  induction list with
  | nil => rfl
  | cons first rest ih =>
      cases rest with
      | nil => simp [Pieces.listElements, writtenElements, Piece.render]
      | cons second rest =>
          simp only [List.map_cons] at ih ⊢
          rw [Pieces.listElements, Piece.renderAll_append, Piece.renderAll_cons,
            Piece.renderAll_cons, ih]
          · simp [writtenElements, Piece.render, Pieces.symbol]
          · simp

@[simp] theorem renderAll_container
    (place : ContainerPlace)
    (delimiters : Text × Text)
    (list : Container Tree) :
    Piece.renderAll .slash .hidden
      (Pieces.container place delimiters (list.map (Tree.printed .java))) =
        writtenContainer delimiters list := by
  unfold Pieces.container writtenContainer
  simp [Piece.render]

@[simp] theorem renderAll_option (child : Option Tree) :
    Piece.renderAll .slash .hidden (Pieces.option (child.map (Tree.printed .java))) =
      writtenOption child := by
  cases child <;> rfl

@[simp] theorem renderAll_receiver (receiver : Option (RightPadded Tree)) :
    Piece.renderAll .slash .hidden
      (Pieces.receiver (receiver.map (·.map (Tree.printed .java)))) =
        writtenReceiver receiver := by
  cases receiver with
  | none => rfl
  | some padded => simp [Pieces.receiver, writtenReceiver, Piece.render, Pieces.symbol]

end Pieces

/-! ### The text of each form -/

namespace Form

variable {typeTag : Option Text}

attribute [local simp] Form.map Pieces.form

@[simp] theorem written_compilationUnit
    (dialect : Dialect)
    (source : SourceInfo)
    (statements : List (RightPadded Tree))
    (eof : Space) :
    (compilationUnit dialect source statements eof).written =
      writtenStatements statements ++ eof.render .slash := by
  simp [written, Piece.render]

@[simp] theorem written_block
    (statements : List (RightPadded Tree))
    (closing : Space) :
    (block statements closing).written =
      '\x7b' :: (writtenStatements statements ++ (closing.render .slash ++ ['\x7d'])) := by
  simp [written, Piece.render, Pieces.symbol]

@[simp] theorem written_conditional
    (condition : Tree)
    (consequence : RightPadded Tree)
    (alternative : Option Tree) :
    (conditional condition consequence alternative).written =
      'i' :: 'f' :: (condition.written ++ (writtenStatement consequence ++
        writtenOption alternative)) := by
  simp [written, Piece.render, Pieces.symbol]

@[simp] theorem written_otherwise (body : RightPadded Tree) :
    (otherwise body).written = 'e' :: 'l' :: 's' :: 'e' :: writtenStatement body := by
  simp [written, Piece.render, Pieces.symbol]

@[simp] theorem written_returns (value : Option Tree) :
    (returns value).written = "return".toList ++ writtenOption value := by
  simp [written, Piece.render, Pieces.symbol]

@[simp] theorem written_assignment
    (target : Tree)
    (value : LeftPadded Tree) :
    (assignment target value typeTag).written =
      target.written ++ (value.before.render .slash ++ '=' :: value.element.written) := by
  simp [written, Piece.render, Pieces.symbol]

@[simp] theorem written_binary
    (left : Tree)
    (operator : LeftPadded Operator)
    (right : Tree) :
    (binary left operator right typeTag).written =
      left.written ++ (operator.before.render .slash ++
        (operator.element.symbol .java ++ right.written)) := by
  simp [written, Piece.render]

@[simp] theorem written_identifier (name : Text) :
    (identifier name typeTag : Form Tree).written = name := by
  simp [written, Piece.render]

@[simp] theorem written_literal (source : Text) :
    (literal source typeTag : Form Tree).written = source := by
  simp [written, Piece.render]

@[simp] theorem written_fieldAccess
    (target : Tree)
    (name : LeftPadded Tree) :
    (fieldAccess target name typeTag).written =
      target.written ++ (name.before.render .slash ++ '.' :: name.element.written) := by
  simp [written, Piece.render, Pieces.symbol]

@[simp] theorem written_call
    (receiver : Option (RightPadded Tree))
    (name : Tree)
    (arguments : Container Tree) :
    (call receiver name arguments typeTag).written =
      writtenReceiver receiver ++ (name.written ++ writtenContainer (['('], [')']) arguments) := by
  simp [written]

@[simp] theorem written_declaration
    (returnType : Option Tree)
    (name : Tree)
    (parameters : Container Tree)
    (body : Option Tree) :
    (declaration returnType name parameters body).written =
      writtenOption returnType ++ (name.written ++
        (writtenContainer (['('], [')']) parameters ++ writtenOption body)) := by
  simp [written]

@[simp] theorem written_parentheses (inner : RightPadded Tree) :
    (parentheses inner).written =
      '(' :: (inner.element.written ++ (inner.after.render .slash ++ [')'])) := by
  simp [written, Piece.render, Pieces.symbol]

@[simp] theorem written_collection
    (kind : CollectionKind)
    (elements : Container Tree) :
    (collection kind elements typeTag).written = writtenContainer kind.delimiters elements := by
  simp [written]

@[simp] theorem written_empty : (empty : Form Tree).written = [] := rfl

@[simp] theorem written_unknown (text : Text) : (unknown text : Form Tree).written = text := by
  simp [written, Piece.render]

end Form

/-! ## Where a node is printed -/

section Parts

variable {dialect : Dialect} {part more whole : Pieces}

/-- Pieces that stand together also do with more pieces behind them. -/
theorem infix_left (within : part <:+: whole) : part <:+: whole ++ more :=
  within.trans (List.prefix_append ..).isInfix

/-- Pieces that stand together also do with more pieces in front of them. -/
theorem infix_right (within : part <:+: whole) : part <:+: more ++ whole :=
  within.trans (List.suffix_append ..).isInfix

variable {child : Tree}

theorem infix_statement
    {place : ElementPlace}
    (padded : RightPadded Tree) :
    padded.element.pieces dialect <:+:
      Pieces.statement dialect place (padded.map (Tree.printed dialect)) :=
  infix_left (List.infix_refl _)

theorem infix_statements
    {place : ElementPlace}
    {statements : List (RightPadded Tree)}
    (member : child ∈ RightPadded.elements statements) :
    child.pieces dialect <:+:
      (statements.map (·.map (Tree.printed dialect))).flatMap (Pieces.statement dialect place) := by
  obtain ⟨padded, present, rfl⟩ := List.mem_map.1 member
  have within : padded.element.pieces dialect <:+:
      Pieces.statement dialect place (padded.map (Tree.printed dialect)) := infix_statement padded
  exact within.trans (List.infix_of_mem_flatten (List.mem_map_of_mem (List.mem_map_of_mem present)))

theorem infix_listElements
    {place : ElementPlace}
    {list : List (RightPadded Tree)}
    (member : child ∈ RightPadded.elements list) :
    child.pieces dialect <:+: Pieces.listElements place (list.map (·.map (Tree.printed dialect))) := by
  induction list with
  | nil => cases member
  | cons first rest ih =>
      rcases List.mem_cons.1 member with rfl | later
      · cases rest <;> exact infix_left (List.infix_refl _)
      · cases rest with
        | nil => cases later
        | cons second rest => exact infix_right (List.infix_cons (List.infix_cons (ih later)))

theorem infix_container
    {place : ContainerPlace}
    {delimiters : Text × Text}
    {list : Container Tree}
    (member : child ∈ list.elements) :
    child.pieces dialect <:+: Pieces.container place delimiters (list.map (Tree.printed dialect)) :=
  List.infix_cons (List.infix_cons (infix_left (infix_listElements member)))

theorem infix_option
    {option : Option Tree}
    (member : child ∈ option.toList) :
    child.pieces dialect <:+: Pieces.option (option.map (Tree.printed dialect)) := by
  obtain rfl := Option.mem_toList.1 member
  exact List.infix_refl _

theorem infix_receiver
    {receiver : Option (RightPadded Tree)}
    (member : child ∈ (receiver.map (·.element)).toList) :
    child.pieces dialect <:+: Pieces.receiver (receiver.map (·.map (Tree.printed dialect))) := by
  cases receiver with
  | none => cases member
  | some padded =>
      obtain rfl := List.mem_singleton.1 member
      exact infix_left (List.infix_refl _)

/-- The pieces of a child stand together in those of a form. -/
theorem infix_form
    {form : Form Tree}
    (member : child ∈ form.children) :
    child.pieces dialect <:+: Pieces.form dialect (form.map (Tree.printed dialect)) := by
  cases form with
  | compilationUnit source path statements eof => exact infix_left (infix_statements member)
  | block statements closing =>
      have within : child.pieces dialect <:+: (statements.map (·.map (Tree.printed dialect))).flatMap
          (Pieces.statement dialect .blockStatement) := infix_statements member
      cases dialect with
      | java => exact List.infix_cons (infix_left (infix_left within))
      | python => exact List.infix_cons (infix_left within)
  | conditional condition consequence alternative =>
      simp only [Form.children, List.mem_cons] at member
      rcases member with rfl | rfl | member
      · exact List.infix_cons (infix_left (infix_left (List.infix_refl _)))
      · exact List.infix_cons (infix_left (infix_right (infix_statement consequence)))
      · exact List.infix_cons (infix_right (infix_option member))
  | otherwise body =>
      obtain rfl := List.mem_singleton.1 member
      exact List.infix_cons (infix_statement body)
  | returns value => exact List.infix_cons (infix_option member)
  | assignment target value typeTag =>
      simp only [Form.children, List.mem_cons, List.not_mem_nil, or_false] at member
      rcases member with rfl | rfl
      · exact infix_left (List.infix_refl _)
      · exact infix_right (List.infix_cons (List.infix_cons (List.infix_refl _)))
  | binary left operator right typeTag =>
      simp only [Form.children, List.mem_cons, List.not_mem_nil, or_false] at member
      rcases member with rfl | rfl
      · exact infix_left (List.infix_refl _)
      · exact infix_right (List.infix_cons (List.infix_cons (List.infix_refl _)))
  | fieldAccess target name typeTag =>
      simp only [Form.children, List.mem_cons, List.not_mem_nil, or_false] at member
      rcases member with rfl | rfl
      · exact infix_left (List.infix_refl _)
      · exact infix_right (List.infix_cons (List.infix_cons (List.infix_refl _)))
  | call receiver name list typeTag =>
      simp only [Form.children, List.mem_append, List.mem_cons] at member
      rcases member with member | rfl | member
      · exact infix_left (infix_left (infix_receiver member))
      · exact infix_left (infix_right (List.infix_refl _))
      · exact infix_right (infix_container member)
  | declaration returnType name list body =>
      simp only [Form.children, List.mem_append, List.mem_cons] at member
      rcases member with (member | rfl | member) | member
      · exact infix_left (infix_left (infix_left (infix_right (infix_option member))))
      · exact infix_left (infix_left (infix_right (List.infix_refl _)))
      · exact infix_left (infix_right (infix_container member))
      · exact infix_right (infix_option member)
  | parentheses inner =>
      obtain rfl := List.mem_singleton.1 member
      exact List.infix_cons (infix_left (List.infix_refl _))
  | collection kind list typeTag => exact infix_container member
  | identifier name typeTag => cases member
  | literal source typeTag => cases member
  | empty => cases member
  | unknown text => cases member

end Parts

/-- The pieces of a node stand together in those of the tree. -/
theorem Tree.pieces_infix
    {tree node : Tree}
    (dialect : Dialect)
    (member : node ∈ tree.nodes) :
    node.pieces dialect <:+: tree.pieces dialect := by
  induction tree using Tree.induction with
  | step head form ih =>
      rw [nodes_node, List.mem_cons, List.mem_flatMap] at member
      rcases member with rfl | ⟨child, isChild, member⟩
      · exact List.infix_refl _
      · rw [pieces_node dialect head form]
        exact (ih child isChild member).trans
          (List.infix_cons (List.infix_cons (infix_left (infix_form isChild))))

/-- A printed tree is split in what is printed up to the end of a node and what is printed behind it. -/
def Tree.SplitsBehind
    (tree node : Tree)
    (front rest : Text) : Prop :=
  exists before after,
    tree.pieces tree.dialect = before ++ node.pieces tree.dialect ++ after ∧
    front = Piece.renderAll tree.dialect.delimiters .hidden (before ++ node.pieces tree.dialect) ∧
    rest = Piece.renderAll tree.dialect.delimiters .hidden after

namespace Tree

variable {tree node : Tree}

/-- Every node splits the printed tree. -/
theorem exists_splitsBehind (member : node ∈ tree.nodes) :
    exists front rest, tree.SplitsBehind node front rest := by
  obtain ⟨before, after, pieces⟩ := pieces_infix tree.dialect member
  exact ⟨_, _, before, after, pieces.symm, rfl, rfl⟩

theorem SplitsBehind.printTrimmed_eq
    {front rest : Text}
    (split : tree.SplitsBehind node front rest) :
    tree.printTrimmed = front ++ rest := by
  obtain ⟨before, after, pieces, rfl, rfl⟩ := split
  rw [printTrimmed, printIn, pieces, Piece.renderAll_append]

end Tree

end Java
end Lossless
