import Lossless.Proofs.Format.Depth
import Lossless.Proofs.Format.Lines
import Lossless.Proofs.Java.Drawn
import Lossless.Proofs.Java.Reported
import Lossless.Proofs.Java.RoundTrip
import Lossless.Proofs.Layout.Bare

/-!
# Arguments below the first one

Where wrapped arguments are aligned, they go to the column of the first argument of their call. That column is measured
in the text as it was before it was indented, from the node that starts the line. As long as no line break comes in
between, the text is printed again as it was, and the arguments do stand below the first one. Behind a line break it need
not be so: the line that was measured may itself be moved.
-/

namespace Lossless
namespace Format

open Java

/-! ## Spaces in one line -/

/-- The space stays, or breaks the line before and after. -/
def KeepsLine (old new : Space) : Prop :=
  new = old ∨ old.containsNewline = true ∧ new.containsNewline = true

theorem keepsLine_indentTo
    (style : IndentStyle)
    (column : Nat)
    (space : Space) :
    KeepsLine space (Exact.indentTo style column space) := by
  cases breaks : space.containsNewline with
  | false => exact .inl (Indents.indentTo_of_inLine style column breaks)
  | true => exact .inr ⟨breaks, (containsNewline_indentTo space).trans breaks⟩

theorem mem_render_of_containsNewline
    {space : Space}
    (breaks : space.containsNewline = true) :
    '\n' ∈ space.render .slash := by
  rw [Space.containsNewline, Bool.or_eq_true_iff, List.any_eq_true] at breaks
  rw [Space.render, List.mem_append, List.mem_flatMap]
  rcases breaks with leading | ⟨comment, member, breaks⟩
  · exact .inl (List.contains_iff_mem.1 leading)
  · exact .inr ⟨comment, member, List.mem_append_right _ (List.contains_iff_mem.1 breaks)⟩

/-- Gaps that stay, or break the line before and after, one by one. -/
def BreaksAlike : Gaps -> Gaps -> Prop :=
  List.Forall₂ fun old new => new.1 = old.1 ∧ KeepsLine old.2 new.2

theorem isGapRelation_breaksAlike : IsGapRelation BreaksAlike where
  refl := fun gaps => List.forall₂_same.2 fun _ _ => ⟨rfl, .inl rfl⟩
  trans := by
    intro first second third before after
    induction before generalizing third with
    | nil => exact after
    | cons here _ ih =>
        cases after with
        | cons there after =>
            refine .cons ⟨there.1.trans here.1, ?_⟩ (ih after)
            rcases here.2 with same | breaks
            · exact same ▸ there.2
            · rcases there.2 with same | breaksAgain
              · exact .inr (same ▸ breaks)
              · exact .inr ⟨breaks.1, breaksAgain.2⟩
  append := fun before after => List.rel_append before after

/-- The text of a piece stays where it is in one line. -/
def StaysInLine (old new : Piece SpacePlace) : Prop :=
  Piece.starts [new] = Piece.starts [old] ∧
    ('\n' ∉ new.render .slash .hidden -> new.render .slash .hidden = old.render .slash .hidden)

theorem staysInLine_of_breaksAlike
    {old new : Pieces}
    (same : new.map Piece.bare = old.map Piece.bare)
    (gaps : BreaksAlike (Piece.spaces old) (Piece.spaces new)) :
    List.Forall₂ StaysInLine old new := by
  induction old generalizing new with
  | nil =>
      rw [List.map_eq_nil_iff.1 same]
      exact .nil
  | cons first rest ih =>
      cases new with
      | nil => cases same
      | cons firstNew restNew =>
          obtain ⟨here, later⟩ := List.cons_eq_cons.1 same
          cases first with
          | space place content =>
              cases firstNew with
              | space =>
                  cases gaps with
                  | cons gap gaps =>
                      refine .cons ⟨rfl, fun oneLine => ?_⟩ (ih later gaps)
                      rcases gap.2 with same | ⟨-, breaks⟩
                      · exact congrArg (Space.render .slash) same
                      · exact absurd (mem_render_of_containsNewline breaks) oneLine
              | _ => cases here
          | token text =>
              cases firstNew with
              | token =>
                  obtain rfl := Piece.token.inj here
                  exact .cons ⟨rfl, fun _ => rfl⟩ (ih later gaps)
              | _ => cases here
          | start id markers =>
              cases firstNew with
              | start =>
                  obtain ⟨rfl, -⟩ := Piece.start.inj here
                  exact .cons ⟨rfl, fun _ => rfl⟩ (ih later gaps)
              | _ => cases here
          | finish id =>
              cases firstNew with
              | finish => exact .cons ⟨rfl, fun _ => rfl⟩ (ih later gaps)
              | _ => cases here

/-- What is printed in one line before a node was printed there before. -/
theorem textBefore?_of_staysInLine
    {old new : Pieces}
    {id : Stamp}
    {front : Text}
    (stays : List.Forall₂ StaysInLine old new)
    (inFront : Piece.textBefore? .slash .hidden id new = some front)
    (oneLine : '\n' ∉ front) :
    Piece.textBefore? .slash .hidden id old = some front := by
  induction stays generalizing front with
  | nil => cases inFront
  | @cons first firstNew rest restNew here _ ih =>
      by_cases started : id ∈ Piece.starts [first]
      · cases first with
        | start =>
            cases firstNew with
            | start =>
                obtain rfl := List.mem_singleton.1 started
                obtain ⟨rfl⟩ := List.singleton_inj.1 here.1
                rw [Piece.textBefore?, Piece.beforeStart?, if_pos rfl] at inFront ⊢
                exact inFront
            | _ => cases here.1
        | _ => cases started
      · rw [Piece.textBefore?, Piece.beforeStart?_cons (here.1 ▸ started), Option.map_map, Option.map_eq_some_iff]
          at inFront
        obtain ⟨before, found, rfl⟩ := inFront
        rw [Function.comp_apply, Piece.renderAll_cons, List.mem_append, not_or] at oneLine
        have later := ih (congrArg (Option.map _) found) oneLine.2
        rw [Piece.textBefore?, Option.map_eq_some_iff] at later
        obtain ⟨beforeOld, foundOld, same⟩ := later
        rw [Piece.textBefore?, Piece.beforeStart?_cons started, foundOld, Option.map_some, Option.map_some,
          Function.comp_apply, Piece.renderAll_cons, Piece.renderAll_cons, same, here.2 oneLine.1]


section Trees

variable {styles : Styles} {around : Surroundings} {old new : Tree}

/-- Nothing stands before the units in a tree. -/
def NothingBeforeUnits (tree : Tree) : Prop :=
  forall node, node ∈ tree.nodes -> node.form.isUnit = true -> node.leading.isEmpty = true

theorem Reindented.breaksAlike
    (related : Reindented styles around old new)
    (nothing : NothingBeforeUnits old) :
    Regapped BreaksAlike old new :=
  @Reindented.regapped styles (fun _ => KeepsLine) (fun _ _ => .inl rfl) (fun _ => keepsLine_indentTo styles.indents) _
    isGapRelation_breaksAlike (fun kept => .cons ⟨rfl, kept⟩ .nil) _ _ _ nothing related

theorem staysInLine_of_regapped (regapped : Regapped BreaksAlike old new) :
    List.Forall₂ StaysInLine (old.pieces .java) (new.pieces .java) := by
  have same := congrArg (Tree.pieces .java) regapped.bare
  rw [Tree.pieces_bare, Tree.pieces_bare] at same
  exact staysInLine_of_breaksAlike same (regapped.gaps .java)

/-- What is printed in one line of an indented tree was printed there before. -/
theorem front?_of_regapped
    (regapped : Regapped BreaksAlike old new)
    {id : Stamp}
    {front : Text}
    (inFront : new.front? id = some front)
    (oneLine : '\n' ∉ front) :
    old.front? id = some front := by
  have stays := staysInLine_of_regapped regapped
  obtain ⟨head, form⟩ := old
  obtain ⟨headNew, formNew⟩ := new
  rw [Tree.pieces_node, Tree.pieces_node] at stays
  rw [Tree.front?, Tree.pieces_node] at inFront ⊢
  cases stays with
  | cons _ stays => exact textBefore?_of_staysInLine stays inFront oneLine

/-- Trees that are the same bare have the same identifiers. -/
theorem ids_of_bare (same : new.bare = old.bare) : new.ids = old.ids := by
  have starts (tree : Tree) : Piece.starts (tree.bare.pieces .java) = tree.ids := by
    rw [Tree.pieces_bare, Piece.starts_map_bare, starts_pieces]
    rfl
  rw [← starts, same, starts]

end Trees

end Format

/-! ## Columns of nodes -/

namespace Java

/-- The column in which the syntax of a node starts where a tree is printed without its markers. -/
def Tree.column?
    (tree : Tree)
    (id : Stamp) : Option Nat :=
  (Piece.textBefore? tree.dialect.delimiters .hidden id (tree.pieces tree.dialect)).map Text.columnOf

/-- The arguments of a call. -/
def Form.arguments : Form α -> List α
  | call _ _ list _ => list.elements
  | _ => []

theorem Form.mem_children_of_mem_arguments
    {form : Form α}
    {child : α}
    (member : child ∈ form.arguments) :
    child ∈ form.children := by
  cases form with
  | call => exact List.mem_append_right _ (List.mem_cons_of_mem _ member)
  | _ => cases member

end Java

namespace Format
namespace Indents

open Java

/-! ## Lists -/

section Lists

variable {styles : Styles}

/-- Behind the first element, those that start lines go to the column that is given to them. -/
theorem indent_of_listed
    {measured : Measure}
    {child : Surroundings -> Tree -> Tree -> Prop}
    (reindents : forall around old new, child around old new -> Reindented styles around old new)
    {inside : Interior}
    {columns : ListColumns}
    {isFirst : Bool}
    {target : Nat}
    {old new : List (RightPadded Tree)}
    (listed : ReindentedElements styles measured child inside columns isFirst target old new)
    (isLater : isFirst = false)
    (areInner : forall element, element ∈ RightPadded.elements old -> element.form.isUnit = false)
    {later : Tree}
    (member : later ∈ RightPadded.elements new)
    (starts : later.startsLine = true) :
    later.leading.indent = indentString styles.indents target := by
  induction listed with
  | nil => cases member
  | @cons isFirst target next padded element rest rest' visited keeps _ _ ih =>
      obtain ⟨isInner, areInner⟩ := List.forall_mem_cons.1 areInner
      rw [RightPadded.elements, List.map_cons, List.mem_cons] at member
      rcases member with same | member
      · obtain rfl : later = element := same
        have leading := (reindents _ _ _ visited).leading
        rw [Surroundings.indented_of_isInner isInner] at leading
        rw [Tree.startsLine, leading, contains_lastWhitespace_indentTo] at starts
        rw [leading]
        exact indent_indentTo _ starts
      · obtain rfl := keeps (by rw [isLater]; rfl)
        exact ih rfl areInner member

/-- Below a first element that goes on in a line, the others are to stand as far from the start of the line. -/
theorem firstElementColumn_of_inLine
    {style : IndentStyle}
    {columns : ListColumns}
    {owner : TreeCursor}
    {line : Tree}
    {column : Nat}
    (nearest : (lines owner).find? (·.2.isSome) = some (line, some column))
    (isJava : dialectAmong (lines owner) = .java)
    {unindented indented : Tree}
    (inLine : indented.startsLine = false)
    {front : Text}
    (inFront : line.front? unindented.id = some front)
    (oneLine : '\n' ∉ front) :
    Exact.firstElementColumn style columns owner unindented indented = column + front.length := by
  rw [Tree.startsLine] at inLine
  rw [Exact.firstElementColumn, if_neg (ne_true_of_eq_false inLine), columnInLine?_eq nearest isJava inFront oneLine]
  rfl

/-- The arguments of a call that start lines behind the first one go to its column. -/
theorem indent_of_argument
    {below : List (Tree × Option Nat)}
    {around : Surroundings}
    {old new : Tree}
    (visited : VisitedBelow styles below around old new)
    (sorted : old.IsSorted)
    (aligns : styles.indents.alignArguments = true)
    {line : Tree}
    {column : Nat}
    (nearest : ((old, startColumn? styles around old) :: below).find? (·.2.isSome) = some (line, some column))
    (isJava : dialectAmong ((old, startColumn? styles around old) :: below) = .java)
    {first : Tree}
    {others : List Tree}
    (arguments : new.form.arguments = first :: others)
    (inLine : first.startsLine = false)
    {front : Text}
    (inFront : line.front? first.id = some front)
    (oneLine : '\n' ∉ front)
    {later : Tree}
    (member : later ∈ others)
    (starts : later.startsLine = true) :
    later.leading.indent = indentString styles.indents (column + front.length) := by
  have parts := visited.form
  dsimp only at parts
  generalize (old, startColumn? styles around old) :: below = inner at parts nearest isJava
  have areInner (child : Tree) (isChild : child ∈ old.form.children) := isInner_of_mem_children sorted isChild
  have lists {inside : Interior} {list list' : Container Tree}
      (related : ReindentedList styles (measuredBelow styles.indents inner) (VisitedBelow styles inner) inside
        .methodInvocationArguments list list')
      (arguments : list'.elements = first :: others)
      (areInner : forall element, element ∈ list.elements -> element.form.isUnit = false) :
      later.leading.indent = indentString styles.indents (column + front.length) := by
    obtain ⟨-, padded, -⟩ := related
    rw [Container.elements] at arguments areInner
    generalize list.padded = olds at padded areInner
    generalize list'.padded = news at padded arguments
    cases padded with
    | nil => cases arguments
    | @cons _ _ next padded element rest rest' visitedFirst _ sets listed =>
        obtain ⟨owner, rfl, rfl⟩ := sets (by rw [Bool.true_and]; exact aligns)
        obtain ⟨rfl, rfl⟩ := List.cons_eq_cons.1 arguments
        change line.front? element.id = _ at inFront
        rw [visitedFirst.reindented.id_eq] at inFront
        rw [← firstElementColumn_of_inLine nearest isJava inLine inFront oneLine]
        exact indent_of_listed (fun _ _ _ => VisitedBelow.reindented) listed rfl (List.forall_mem_cons.1 areInner).2 member
          starts
  generalize old.form = oldForm at parts areInner
  generalize new.form = newForm at parts arguments
  cases parts with
  | plainCall _ list => exact lists list arguments fun element member => areInner element (by simp [Form.children, member])
  | call _ _ list => exact lists list arguments fun element member => areInner element (by simp [Form.children, member])
  | _ => cases arguments

end Lists

/-! ## Columns -/

section Columns

variable {styles : Styles} {around : Surroundings} {old new : Tree}

theorem exists_render_eq (space : Space) : ∃ lead, space.render .slash = lead ++ space.lastWhitespace := by
  rcases List.eq_nil_or_concat space.comments with none | ⟨front, last, some⟩
  · refine ⟨[], ?_⟩
    rw [Space.render, Space.lastWhitespace, none]
    exact List.append_nil _
  · rw [List.concat_eq_append] at some
    refine ⟨space.whitespace ++ ((front.flatMap fun comment => comment.render .slash ++ comment.suffix) ++
      last.render .slash), ?_⟩
    rw [Space.render, Space.lastWhitespace, some, List.getLast?_append, List.getLast?_singleton]
    simp

/-- Behind a space that starts a line, a text in the line ends so far from the column of the space. -/
theorem columnOf_behind
    {style : IndentStyle}
    (spaces : style.useTabCharacter = false)
    {space : Space}
    {column : Nat}
    (starts : space.lastWhitespace.contains '\n' = true)
    (indent : space.indent = indentString style column)
    {front : Text}
    (oneLine : '\n' ∉ front)
    (before : Text) :
    Text.columnOf (before ++ (space.render .slash ++ front)) = column + front.length := by
  obtain ⟨lead, rendered⟩ := exists_render_eq space
  have feed : '\n' ∈ space.lastWhitespace := List.contains_iff_mem.1 starts
  have blanks : indentString style column = List.replicate column ' ' := by
    rw [indentString, spaces]
    rfl
  rw [Space.indent, blanks] at indent
  rw [rendered, ← List.append_assoc, ← List.append_assoc, Text.columnOf, Text.afterLast_append_of_notMem oneLine,
    Text.afterLast_append_of_mem feed, indent, List.length_append, List.length_replicate]

/-- Before a unit stands nothing, and stays so. -/
theorem leading_of_isUnit
    (related : Reindented styles around old new)
    (isUnit : old.form.isUnit = true)
    (isEmpty : old.leading.isEmpty = true) :
    new.leading = old.leading := by
  have blank := Bool.and_eq_true_iff.1 isEmpty
  rw [related.leading, Surroundings.indented, if_pos isUnit, Space.withWhitespace,
    if_pos (List.isEmpty_iff.1 blank.1).symm, indentTo_of_inLine _ _ (containsNewline_of_isEmpty isEmpty)]

/-- A node that starts a line stands in the column that it notes; nothing stands before a unit. -/
theorem column_of_line
    (related : Reindented styles around old new)
    (isEmpty : old.form.isUnit = true -> old.leading.isEmpty = true)
    (starts : new.startsLine = true ∨ new.form.isUnit = true) :
    ∃ column, startColumn? styles around old = some column ∧
      (new.form.isUnit = true ∧ new.leading.render .slash = [] ∧ column = 0 ∨
        new.startsLine = true ∧ new.leading.indent = indentString styles.indents column) := by
  have isUnitNew : new.form.isUnit = old.form.isUnit := related.form.isUnit_eq
  cases isUnit : old.form.isUnit with
  | true =>
      refine ⟨0, if_pos isUnit, .inl ⟨isUnitNew.trans isUnit, ?_, rfl⟩⟩
      rw [leading_of_isUnit related isUnit (isEmpty isUnit), (Space.render_eq_nil_iff old.leading).2 (isEmpty isUnit)]
  | false =>
      have startsNew : new.startsLine = true := starts.resolve_right (by simp [isUnitNew, isUnit])
      have startsOld : old.leading.lastWhitespace.contains '\n' = true := by
        rw [← startsNew, startsLine_of_reindented isUnit related]
        rfl
      refine ⟨(around.slot styles old.form).column, ?_, .inr ⟨startsNew, ?_⟩⟩
      · rw [startColumn?, if_neg (ne_true_of_eq_false isUnit), if_pos startsOld]
      · rw [related.leading, Surroundings.indented_of_isInner isUnit]
        exact indent_indentTo _ startsOld

end Columns

/-! ## The nodes on a line -/

section Nodes

variable {styles : Styles} {around : Surroundings} {below : List (Tree × Option Nat)} {column? : Option Nat}
variable {root origin line old new child childNew : Tree} {column : Nat}

/-- Below a sorted tree there are no units. -/
theorem nothingBeforeUnits_of_isSorted
    (sorted : old.IsSorted)
    (isEmpty : old.form.isUnit = true -> old.leading.isEmpty = true) :
    NothingBeforeUnits old := by
  intro node member isUnit
  induction old using Tree.induction with
  | step head form ih =>
      rcases Tree.eq_or_exists_of_mem_nodes member with rfl | ⟨child, isChild, below⟩
      · exact isEmpty isUnit
      · refine ih child isChild (sorted.of_mem_children isChild) (fun isUnit => ?_) below
        rw [isInner_of_mem_children sorted isChild] at isUnit
        cases isUnit

theorem dialectAmong_cons_of_isInner (isInner : child.form.isUnit = false) :
    dialectAmong ((child, column?) :: below) = dialectAmong below := by
  rw [dialectAmong, List.map_cons, List.find?_cons, isSource_eq, isInner]
  rfl

/-- A node of a unit in the Java dialect that nothing stands before. -/
structure StandsInUnit
    (root : Tree)
    (below : List (Tree × Option Nat))
    (old new : Tree) : Prop where
  isSorted : old.IsSorted
  isJava : forall column?, dialectAmong ((old, column?) :: below) = .java
  isUnit : old.form.isUnit = true -> old.leading.isEmpty = true ∧ new = root

theorem StandsInUnit.part
    (stands : StandsInUnit root below old new)
    (isChild : child ∈ old.form.children) :
    StandsInUnit root ((old, column?) :: below) child childNew := by
  have isInner := isInner_of_mem_children stands.isSorted isChild
  refine ⟨stands.isSorted.of_mem_children isChild, fun _ => ?_, fun isUnit => ?_⟩
  · rw [dialectAmong_cons_of_isInner isInner, stands.isJava]
  · rw [isInner] at isUnit
    cases isUnit

/-- Below a tree, everything in a node that starts a line is printed behind a line break. -/
theorem feed_of_startsLine
    (distinct : line.ids.Nodup)
    (isChild : child ∈ line.form.children)
    {owner node : Tree}
    (isOwner : owner ∈ child.nodes)
    (starts : owner.startsLine = true)
    (member : node ∈ owner.nodes)
    {front : Text}
    (inFront : line.front? node.id = some front) :
    '\n' ∈ front := by
  obtain ⟨before, rest, -, printed⟩ := exists_front_of_below distinct isChild isOwner member
  obtain rfl := Option.some.inj (printed.symm.trans inFront)
  have feed := mem_render_of_containsNewline (containsNewline_of_lastWhitespace starts)
  exact List.mem_append_right _ (List.mem_append_left _ feed)

/-- Everything in the tree is printed behind a line break in the line. -/
def StandsBehind (line tree : Tree) : Prop :=
  forall node, node ∈ tree.nodes -> forall front, line.front? node.id = some front -> '\n' ∈ front

/-- A node that is visited below one that starts a line goes on in the line, or stands behind a line break. -/
structure StandsInLine
    (origin line : Tree)
    (column : Nat)
    (below : List (Tree × Option Nat))
    (old new : Tree) : Prop where
  isSorted : old.IsSorted
  isInner : old.form.isUnit = false
  isJava : dialectAmong below = .java
  isBelow : ∃ child, child ∈ line.form.children ∧ new ∈ child.nodes
  nearest : StandsBehind line new ∨ below.find? (·.2.isSome) = some (origin, some column)

/-- The line that is found inside a node is the one around it, unless the node starts a line of its own. -/
theorem StandsInLine.inside
    (stands : StandsInLine origin line column below old new)
    (distinct : line.ids.Nodup)
    (related : Reindented styles around old new) :
    StandsBehind line new ∨
      ((old, startColumn? styles around old) :: below).find? (·.2.isSome) = some (origin, some column) := by
  rcases stands.nearest with behind | nearest
  · exact .inl behind
  · cases starts : old.startsLine with
    | false =>
        right
        have noColumn : startColumn? styles around old = none := by
          rw [startColumn?, if_neg (ne_true_of_eq_false stands.isInner)]
          exact if_neg (ne_true_of_eq_false starts)
        rw [List.find?_cons, noColumn]
        exact nearest
    | true =>
        left
        intro node member front inFront
        obtain ⟨child, isChild, isOwner⟩ := stands.isBelow
        have startsNew := (startsLine_of_reindented stands.isInner related).trans starts
        exact feed_of_startsLine distinct isChild isOwner startsNew member inFront

theorem StandsInLine.part
    (stands : StandsInLine origin line column below old new)
    (distinct : line.ids.Nodup)
    (related : Reindented styles around old new)
    (isChild : child ∈ old.form.children)
    (isChildNew : childNew ∈ new.form.children) :
    StandsInLine origin line column ((old, startColumn? styles around old) :: below) child childNew := by
  obtain ⟨first, isFirst, isBelow⟩ := stands.isBelow
  have isPart : childNew ∈ new.nodes := Tree.mem_nodes_of_mem_children isChildNew (Tree.mem_nodes_self _)
  refine ⟨stands.isSorted.of_mem_children isChild, isInner_of_mem_children stands.isSorted isChild, ?_,
    ⟨first, isFirst, Tree.mem_nodes_trans isBelow isPart⟩, ?_⟩
  · rw [dialectAmong_cons_of_isInner stands.isInner, stands.isJava]
  · refine (stands.inside distinct related).imp_left fun behind node member => behind node ?_
    exact Tree.mem_nodes_of_mem_children isChildNew member

end Nodes

/-! ## Runs -/

section Runs

variable {styles : Styles} {view left : View} {root origin line call first later : Tree} {others : List Tree}
variable {column : Nat} {front : Text}

/-- The arguments of a call on a line that start lines go as far from the start of the line as the first one is. -/
theorem indent_on_line
    (visit : Visits styles view origin left line)
    (goesOn : view.stop = .never)
    (stands : StandsInUnit root (lines view.cursor) origin line)
    (distinct : line.ids.Nodup)
    (starts : startColumn? styles (surroundingsOf styles.indents view.cursor) origin = some column)
    (aligns : styles.indents.alignArguments = true)
    (isCall : call ∈ line.nodes)
    (arguments : call.form.arguments = first :: others)
    (inFront : line.front? first.id = some front)
    (oneLine : '\n' ∉ front)
    (member : later ∈ others)
    (startsLater : later.startsLine = true) :
    later.leading.indent = indentString styles.indents (column + front.length) := by
  have reads := reads_surroundingsOf styles.indents view.cursor
  have isArgument : first ∈ call.form.children :=
    Form.mem_children_of_mem_arguments (arguments ▸ List.mem_cons_self)
  have isFirst : first ∈ call.nodes := Tree.mem_nodes_of_mem_children isArgument (Tree.mem_nodes_self first)
  have nothing := nothingBeforeUnits_of_isSorted stands.isSorted fun isUnit => (stands.isUnit isUnit).1
  have inFrontOrigin := front?_of_regapped ((visit.holds goesOn _ reads).2.2.breaksAlike nothing) inFront oneLine
  have nearest : ((origin, startColumn? styles (surroundingsOf styles.indents view.cursor) origin) ::
      lines view.cursor).find? (·.2.isSome) = some (origin, some column) := by
    rw [starts]
    rfl
  have goesOnInLine : first.startsLine = false := by
    obtain ⟨child, isChild, isBelow⟩ := Tree.exists_child_of_mem_nodes isCall isArgument
    refine Bool.eq_false_iff.2 fun startsFirst => oneLine ?_
    exact feed_of_startsLine distinct isChild isBelow startsFirst (Tree.mem_nodes_self first) inFront
  have visited : VisitedBelow styles (lines view.cursor) _ origin line := ⟨view, left, goesOn, rfl, reads, visit⟩
  rcases Tree.eq_or_exists_of_mem_nodes isCall with rfl | ⟨child, isChild, isBelow⟩
  · exact indent_of_argument visited stands.isSorted aligns nearest (stands.isJava _) arguments goesOnInLine inFrontOrigin
      oneLine member startsLater
  · obtain ⟨childOrigin, isChildOrigin, _, viewChild, leftChild, goesOnChild, atLines, -, visitChild⟩ :=
      exists_of_forall₂ visited.form.children isChild
    have here : StandsInLine origin line column (lines viewChild.cursor) childOrigin child := by
      rw [atLines]
      exact ⟨stands.isSorted.of_mem_children isChildOrigin, isInner_of_mem_children stands.isSorted isChildOrigin,
        stands.isJava _, ⟨child, isChild, Tree.mem_nodes_self child⟩, .inr nearest⟩
    obtain ⟨viewCall, originCall, leftCall, goesOnCall, standsCall, visitCall⟩ :=
      exists_visit_of_mem_nodes (fun _ _ _ _ related stands _ _ => stands.part distinct related) visitChild goesOnChild here
        isBelow
    have visitedCall : VisitedBelow styles (lines viewCall.cursor) _ originCall call :=
      ⟨viewCall, leftCall, goesOnCall, rfl, reads_surroundingsOf styles.indents viewCall.cursor, visitCall⟩
    rcases standsCall.inside distinct visitedCall.reindented with behind | nearestCall
    · exact absurd (behind first isFirst front inFront) oneLine
    · refine indent_of_argument visitedCall standsCall.isSorted aligns nearestCall ?_ arguments goesOnInLine inFrontOrigin
        oneLine member startsLater
      rw [dialectAmong_cons_of_isInner standsCall.isInner, standsCall.isJava]

/-- A unit that was parsed is of the Java dialect, and nothing stands before it. -/
theorem unit_of_settled
    {source : Text}
    {path : Path}
    {tree : Tree}
    (parsed : parse source path = .ok tree)
    (next : Nat) :
    (tree.settle.run next).1.dialect? = some .java ∧ (tree.settle.run next).1.leading.isEmpty = true := by
  obtain ⟨statements, eof, rfl⟩ := build_of_parse parsed
  rw [Tree.build, Tree.settle_node]
  exact ⟨rfl, rfl⟩

theorem nodup_ids_of_mem_nodes
    (distinct : root.ids.Nodup)
    (member : line ∈ root.nodes) :
    line.ids.Nodup := by
  obtain ⟨before, after, split⟩ := Tree.pieces_infix .java member
  have starts : Piece.starts (root.pieces .java) = root.ids := starts_pieces root
  rw [← starts, ← split, Piece.starts_append, Piece.starts_append, starts_pieces] at distinct
  exact (List.nodup_append.1 (List.nodup_append.1 distinct).1).2.1

/-- On the line of an owner, a node stands behind what is printed of the owner in front of it. -/
theorem column?_of_startsLine
    {style : IndentStyle}
    (spaces : style.useTabCharacter = false)
    (distinct : root.ids.Nodup)
    (isJava : root.dialect = .java)
    {owner node : Tree}
    (isOwner : owner ∈ root.nodes)
    (starts : owner.startsLine = true)
    (indent : owner.leading.indent = indentString style column)
    (member : node ∈ owner.nodes)
    (inFront : owner.front? node.id = some front)
    (oneLine : '\n' ∉ front) :
    root.column? node.id = some (column + front.length) := by
  have starters : Piece.starts (root.pieces .java) = root.ids := starts_pieces root
  obtain ⟨before, rest, isFront, printed⟩ :=
    exists_textBefore (starters ▸ distinct) (Tree.pieces_infix .java isOwner) member
  obtain rfl := Option.some.inj (isFront.symm.trans inFront)
  rw [Tree.column?, isJava]
  exact (congrArg (Option.map _) printed).trans (congrArg some (columnOf_behind spaces starts indent oneLine before))

/--
In a parsed source whose arguments are aligned with spaces, unless a sum overflows: where a first argument is printed on
the line of a node that starts one, the later arguments of its call that start lines are printed in its column.
-/
theorem wrappedArguments_standBelowFirst
    {source : Text}
    {path : Path}
    {tree : Tree}
    {style : IndentStyle}
    {cursor : TreeCursor}
    (parsed : parse source path = .ok tree)
    (next : Nat)
    (aligns : style.alignArguments = true)
    (spaces : style.useTabCharacter = false)
    (fits : overflows ((tabsAndIndents style).run none cursor (tree.settle.run next).1) = false) :
    ∃ new, (tabsAndIndents style).run none cursor (tree.settle.run next).1 = .ok (some new) ∧
      forall line call first others, line ∈ new.nodes -> line.startsLine = true ∨ line.form.isUnit = true ->
        call ∈ line.nodes -> call.form.arguments = first :: others ->
          forall front, line.front? first.id = some front -> '\n' ∉ front ->
            ∃ column, new.column? first.id = some column ∧
              forall later, later ∈ others -> later.startsLine = true -> new.column? later.id = some column := by
  let styles : Styles := { indents := style }
  obtain ⟨isUnit, sorted⟩ := isSorted_of_parse parsed
  obtain ⟨isJava, isEmpty⟩ := unit_of_settled parsed next
  have distinct := Tree.nodup_ids_settle (Drawing.ids_of_parse parsed) next
  have sorted := sorted.settle next
  rw [← Tree.isUnit_form_settle tree next] at isUnit
  rw [Exact.run_eq (Exact.tabsAndIndents_refines style) fits]
  clear fits
  generalize (tree.settle.run next).1 = unit at isUnit isJava isEmpty distinct sorted
  obtain ⟨new, left, runs, visit⟩ :=
    @tabsAndIndents_throughout styles (Reindents styles) (fun _ _ _ _ _ => id) cursor unit
  have related := (visit.holds rfl _ (reads_surroundingsOf _ _)).2.2
  have regapped := related.breaksAlike (nothingBeforeUnits_of_isSorted sorted fun _ => isEmpty)
  have distinctNew : new.ids.Nodup := ids_of_bare regapped.bare ▸ distinct
  have isJavaNew : new.dialect = .java := by
    rw [← Tree.dialect_bare, regapped.bare, Tree.dialect_bare, Tree.dialect, isJava]
    rfl
  refine ⟨new, runs, ?_⟩
  intro line call first others isLine starts isCall arguments front inFront oneLine
  have here : StandsInUnit new (lines cursor) unit new := by
    refine ⟨sorted, fun _ => ?_, fun _ => ⟨isEmpty, rfl⟩⟩
    rw [dialectAmong, List.map_cons, List.find?_cons, isSource_eq, isUnit]
    exact congrArg (Option.getD · _) isJava
  obtain ⟨viewLine, origin, leftLine, goesOn, stands, visitLine⟩ :=
    exists_visit_of_mem_nodes (fun _ _ _ _ _ stands _ _ isChild _ => stands.part isChild) visit rfl here isLine
  have relatedLine := (visitLine.holds goesOn _ (reads_surroundingsOf _ _)).2.2
  obtain ⟨column, atColumn, shape⟩ := column_of_line relatedLine (fun isUnit => (stands.isUnit isUnit).1) starts
  have isArgument {argument : Tree} (member : argument ∈ first :: others) : argument ∈ call.nodes :=
    Tree.mem_nodes_of_mem_children (Form.mem_children_of_mem_arguments (arguments ▸ member)) (Tree.mem_nodes_self argument)
  have isFirst : first ∈ line.nodes := Tree.mem_nodes_trans isCall (isArgument List.mem_cons_self)
  refine ⟨column + front.length, ?_, fun later member startsLater => ?_⟩
  · rcases shape with ⟨isUnitLine, nothing, rfl⟩ | ⟨startsLine, indent⟩
    · -- in front of the first token of the unit nothing is printed
      obtain rfl := (stands.isUnit (relatedLine.form.isUnit_eq ▸ isUnitLine)).2
      have printed := line.textBefore?_eq first.id
      rw [inFront, nothing] at printed
      rw [Tree.column?, isJavaNew]
      refine (congrArg (Option.map _) printed).trans (congrArg some ?_)
      rw [Text.columnOf, Text.afterLast_append_of_notMem oneLine]
      exact (Nat.zero_add _).symm
    · exact column?_of_startsLine spaces distinctNew isJavaNew isLine startsLine indent isFirst inFront oneLine
  · have indent := indent_on_line visitLine goesOn stands (nodup_ids_of_mem_nodes distinctNew isLine) atColumn aligns isCall
      arguments inFront oneLine member startsLater
    have isLater := Tree.mem_nodes_trans isLine (Tree.mem_nodes_trans isCall (isArgument (List.mem_cons_of_mem _ member)))
    have stands := column?_of_startsLine spaces distinctNew isJavaNew isLater startsLater indent (Tree.mem_nodes_self later)
      (front?_self later) List.not_mem_nil
    exact stands

/-- A call among the arguments of another one, both of them with arguments on lines of their own. -/
def nestedCalls : Text :=
  "void f()\n\x7b\ng(h(a,\nb), c,\nd);\n\x7d".toList

/-- A call on the line of the tree has its first argument on the line and another one on a line of its own. -/
def hasWrappedArgument (line : Tree) : Bool :=
  line.startsLine && line.nodes.any fun call =>
    match call.form.arguments with
    | [] => false
    | first :: others => others.any Tree.startsLine && (line.front? first.id).any fun front => !front.contains '\n'

/-- An argument of one of the calls starts a line below the first one. -/
theorem wrappedArguments_standBelowFirst_of_nestedCalls :
    IndentStyle.alignArguments {} = true ∧ IndentStyle.useTabCharacter {} = false ∧
      ∃ tree new call first others later column, parse nestedCalls ⟨"A.java".toList⟩ = .ok tree ∧
        (tabsAndIndents {}).run none .root (tree.settle.run 0).1 = .ok (some new) ∧
        call ∈ new.nodes ∧ call.form.arguments = first :: others ∧ later ∈ others ∧ later.startsLine = true ∧
        new.column? first.id = some column ∧ new.column? later.id = some column := by
  refine ⟨rfl, rfl, ?_⟩
  have wraps : ((parse nestedCalls ⟨"A.java".toList⟩).toOption.any fun tree =>
      ((tabsAndIndents {}).run none .root (tree.settle.run 0).1).toOption.any fun new =>
        new.any fun new => new.nodes.any hasWrappedArgument) = true := by decide +kernel
  generalize parsed : parse nestedCalls ⟨"A.java".toList⟩ = outcome at wraps
  cases outcome with
  | error => cases wraps
  | ok tree =>
      change (((tabsAndIndents {}).run none .root (tree.settle.run 0).1).toOption.any _) = true at wraps
      obtain ⟨new, runs, stand⟩ := wrappedArguments_standBelowFirst parsed 0 rfl rfl (fits_of_any wraps)
      rw [runs] at wraps
      obtain ⟨line, isLine, wraps⟩ := List.any_eq_true.1 (show new.nodes.any hasWrappedArgument = true from wraps)
      obtain ⟨starts, wraps⟩ := Bool.and_eq_true_iff.1 wraps
      obtain ⟨call, isCall, wraps⟩ := List.any_eq_true.1 wraps
      split at wraps
      · cases wraps
      · next first others arguments =>
          obtain ⟨hasLater, hasFront⟩ := Bool.and_eq_true_iff.1 wraps
          obtain ⟨later, isLater, startsLater⟩ := List.any_eq_true.1 hasLater
          obtain ⟨front, inFront, oneLine⟩ := (Option.any_eq_true ..).1 hasFront
          obtain ⟨column, atFirst, atLater⟩ :=
            stand line call first others isLine (.inl starts) isCall arguments front inFront (by simpa using oneLine)
          exact ⟨tree, new, call, first, others, later, column, rfl, runs, Tree.mem_nodes_trans isLine isCall, arguments,
            isLater, startsLater, atFirst, atLater later isLater startsLater⟩

/-- The nested calls as they are printed. -/
example :
    ((parse nestedCalls ⟨"A.java".toList⟩).toOption.bind fun tree =>
      ((tabsAndIndents {}).run none .root (tree.settle.run 0).1).toOption.bind fun new =>
        new.map Tree.printTrimmed) =
      some "void f()\n\x7b\n    g(h(a,\n        b), c,\n      d);\n\x7d".toList := by
  decide +kernel

end Runs

end Indents
end Format
end Lossless
