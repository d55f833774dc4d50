import Lossless.Java.Language
import Lossless.Proofs.Java.Numbered
import Lossless.Proofs.Java.Reported
import Lossless.Proofs.Json.Copies
import Lossless.Proofs.Json.Reported

/-!
# Where nodes are printed

A probe for a node notes how many bytes have been printed when the syntax of the node begins. What is printed of a
node stands together in what is printed of the tree, so the output is cut there between the space before the node and
its syntax; and since nodes are printed every one before those below it, the offsets of the nodes grow with them.
-/

namespace Lossless

/-! ## Cutting at a byte -/

namespace Text

/-- The text before and behind so many bytes; nothing when the cut is inside a character or behind the end. -/
def cutAt? : Nat -> Text -> Option (Text × Text)
  | 0, text => some ([], text)
  | _ + 1, [] => none
  | offset + 1, first :: rest =>
      if first.utf8Size ≤ offset + 1 then
        (cutAt? (offset + 1 - first.utf8Size) rest).map fun (before, behind) => (first :: before, behind)
      else none

/-- The bytes of the text in front are where the text behind it begins. -/
theorem cutAt?_append (before behind : Text) :
    cutAt? (byteLength before) (before ++ behind) = some (before, behind) := by
  induction before with
  | nil => cases behind <;> rfl
  | cons first rest ih =>
      obtain ⟨size, isSize⟩ := Nat.exists_eq_succ_of_ne_zero (Nat.ne_of_gt first.utf8Size_pos)
      have length : byteLength (first :: rest) = size + byteLength rest + 1 := by
        rw [byteLength_cons, isSize]
        omega
      rw [length, List.cons_append, cutAt?, if_pos (by omega), isSize,
        show size + byteLength rest + 1 - size.succ = byteLength rest by omega, ih]
      rfl

/-- The cut at an offset is between two characters, with one text right in front of it and another right behind it. -/
def IsCutBetween
    (text front rear : Text)
    (offset : Nat) : Prop :=
  exists before behind, cutAt? offset text = some (before, behind) ∧ front <:+ before ∧ rear <+: behind

end Text

/-! ## Probes -/

namespace Piece

variable {π : Type} {delimiters : CommentDelimiters} {pieces : List (Piece π)}

/-- The number of bytes that are printed without markers before the first start of a node. -/
def probe?
    (delimiters : CommentDelimiters)
    (pieces : List (Piece π))
    (id : Stamp) : Option Nat :=
  (textBefore? delimiters .hidden id pieces).map Text.byteLength

/-- A piece that does not start the node is printed before it. -/
theorem probe?_cons
    {id : Stamp}
    {piece : Piece π}
    (other : id ∉ starts [piece]) :
    probe? delimiters (piece :: pieces) id =
      (probe? delimiters pieces id).map ((piece.render delimiters .hidden).byteLength + ·) := by
  have single : renderAll delimiters .hidden [piece] = piece.render delimiters .hidden := by simp
  rw [probe?, <- List.singleton_append, textBefore?_append_of_notMem other, single, probe?, Option.map_map,
    Option.map_map]
  exact congrArg (Option.map · _) (funext fun text => Text.byteLength_append _ text)

/-- A probe for a node that is printed once finds where the space before the node ends and its syntax begins. -/
theorem probe?_of_part
    (distinct : (starts pieces).Nodup)
    {place : π}
    {leading : Space}
    {id : Stamp}
    {markers : Markers Space}
    {rest : List (Piece π)}
    (within : space place leading :: start id markers :: rest <:+: pieces) :
    exists offset, probe? delimiters pieces id = some offset ∧
      (renderAll delimiters .hidden pieces).IsCutBetween (leading.render delimiters)
        (renderAll delimiters .hidden rest) offset := by
  obtain ⟨before, behind, split⟩ := within
  have present : id ∈ starts (space place leading :: start id markers :: rest) := List.mem_cons_self
  have onPart : textBefore? delimiters .hidden id (space place leading :: start id markers :: rest) =
      some (leading.render delimiters) := by
    simp [textBefore?, beforeStart?, Piece.render]
  have printed : renderAll delimiters .hidden pieces =
      (renderAll delimiters .hidden before ++ leading.render delimiters) ++
        (renderAll delimiters .hidden rest ++ renderAll delimiters .hidden behind) := by
    simp [<- split, Piece.render, Markers.render]
  refine ⟨_, by rw [probe?, textBefore?_of_infix distinct split present, onPart]; rfl, _, _,
    by rw [printed, Text.cutAt?_append], List.suffix_append _ _, List.prefix_append _ _⟩

variable (delimiters) in
/-- Probes for the nodes in the order of printing find offsets that do not decrease. -/
theorem probes_increase (distinct : (starts pieces).Nodup) :
    exists offsets : List Nat, (starts pieces).map (probe? delimiters pieces) = offsets.map some ∧
      offsets.Pairwise (· ≤ ·) := by
  induction pieces with
  | nil => exact ⟨[], rfl, .nil⟩
  | cons first rest ih =>
      rw [<- List.singleton_append, starts_append, List.nodup_append] at distinct
      obtain ⟨-, distinctRest, apart⟩ := distinct
      obtain ⟨offsets, found, increase⟩ := ih distinctRest
      let size := (first.render delimiters .hidden).byteLength
      have later : (starts rest).map (probe? delimiters (first :: rest)) = (offsets.map (size + ·)).map some := by
        have moved : (starts rest).map (probe? delimiters (first :: rest)) =
            ((starts rest).map (probe? delimiters rest)).map (Option.map (size + ·)) := by
          rw [List.map_map]
          refine List.map_congr_left fun id member => ?_
          exact probe?_cons fun here => apart id here id member rfl
        rw [moved, found, List.map_map, List.map_map]
        rfl
      have behind : (offsets.map (size + ·)).Pairwise (· ≤ ·) :=
        List.pairwise_map.2 (increase.imp fun less => Nat.add_le_add_left less size)
      cases first with
      | start id markers =>
          have here : probe? delimiters (start id markers :: rest) id = some 0 := by
            simp [probe?, textBefore?, beforeStart?]
          refine ⟨0 :: offsets.map (size + ·), ?_, .cons (fun _ _ => Nat.zero_le _) behind⟩
          rw [starts_start, List.map_cons, here, later, List.map_cons]
      | space place content => exact ⟨_, later, behind⟩
      | token text => exact ⟨_, later, behind⟩
      | finish id => exact ⟨_, later, behind⟩

end Piece

/-! ## The pieces of a data tree -/

namespace Json

variable {child : Tree}

theorem infix_padded (padded : RightPadded Tree) :
    padded.element.pieces <:+: Pieces.padded (padded.map Tree.printed) :=
  (List.prefix_append ..).isInfix

theorem infix_listElements
    {list : List (RightPadded Tree)}
    (member : child ∈ RightPadded.elements list) :
    child.pieces <:+: Pieces.listElements (list.map (·.map Tree.printed)) := by
  cases list with
  | nil => cases member
  | cons first rest =>
      rcases List.mem_cons.1 member with rfl | later
      · exact (infix_padded first).trans (List.prefix_append ..).isInfix
      · obtain ⟨padded, present, rfl⟩ := List.mem_map.1 later
        have inRest : Pieces.symbol "," :: Pieces.padded (padded.map Tree.printed) <:+:
            (rest.map (·.map Tree.printed)).flatMap fun element => Pieces.symbol "," :: Pieces.padded element :=
          List.infix_of_mem_flatten (List.mem_map_of_mem (List.mem_map_of_mem present))
        exact (List.infix_cons (infix_padded padded)).trans (inRest.trans (List.suffix_append ..).isInfix)

/-- The pieces of a child stand together in those of a form. -/
theorem infix_form
    {form : Form Tree}
    (member : child ∈ form.children) :
    child.pieces <:+: Pieces.form (form.map Tree.printed) := by
  cases form with
  | document source value eof =>
      obtain rfl := List.mem_singleton.1 member
      exact (List.prefix_append ..).isInfix
  | object members => exact List.infix_cons ((infix_listElements member).trans (List.prefix_append ..).isInfix)
  | member key value =>
      simp only [Form.children, List.mem_cons, List.not_mem_nil, or_false] at member
      rcases member with rfl | rfl
      · exact (infix_padded key).trans (List.prefix_append ..).isInfix
      · exact (List.infix_cons (List.infix_refl _)).trans (List.suffix_append ..).isInfix
  | array values => exact List.infix_cons ((infix_listElements member).trans (List.prefix_append ..).isInfix)
  | literal source value => cases member
  | identifier name => cases member
  | empty => cases member

/-- The pieces of a node stand together in those of the tree. -/
theorem Tree.pieces_infix
    {tree node : Tree}
    (member : node ∈ tree.nodes) :
    node.pieces <:+: tree.pieces := by
  induction tree using Tree.induction with
  | step head form ih =>
      rw [nodes_node, List.mem_cons, List.mem_flatMap] at member
      rcases member with rfl | ⟨child, isChild, member⟩
      · exact List.infix_refl _
      · rw [pieces_node head form]
        exact (ih child isChild member).trans <| (infix_form isChild).trans <|
          List.infix_cons (List.infix_cons (List.prefix_append ..).isInfix)

end Json

/-! ## The nodes of a tree -/

/--
Probes find the nodes of a printed tree: each of them cuts the output between the rendered space before the node and
the rest of what is printed of the node, and their offsets do not decrease from a node to the next one.
-/
structure FindsNodes
    (nodes : List τ)
    (output : Text)
    (probe? : τ -> Option Nat)
    (leading print : τ -> Text) : Prop where
  finds : forall node, node ∈ nodes -> exists offset syntax', probe? node = some offset ∧
    print node = leading node ++ syntax' ∧ output.IsCutBetween (leading node) syntax' offset
  increases : exists offsets : List Nat, nodes.map probe? = offsets.map some ∧ offsets.Pairwise (· ≤ ·)

/-- Where the nodes are printed in order, each by itself, with its space first and its own start behind it. -/
theorem findsNodes_of_pieces
    {delimiters : CommentDelimiters}
    {pieces : List (Piece π)}
    {nodes : List τ}
    {id : τ -> Stamp}
    {leading : τ -> Space}
    {printed : τ -> List (Piece π)}
    (starts : Piece.starts pieces = nodes.map id)
    (distinct : (nodes.map id).Nodup)
    (within : forall node, node ∈ nodes -> printed node <:+: pieces)
    (begins : forall node, exists place markers rest,
      printed node = .space place (leading node) :: .start (id node) markers :: rest) :
    FindsNodes nodes (Piece.renderAll delimiters .hidden pieces)
      (fun node => Piece.probe? delimiters pieces (id node)) (fun node => (leading node).render delimiters)
      fun node => Piece.renderAll delimiters .hidden (printed node) := by
  rw [<- starts] at distinct
  constructor
  · intro node member
    obtain ⟨place, markers, rest, begun⟩ := begins node
    obtain ⟨offset, found, isCut⟩ := Piece.probe?_of_part distinct (begun ▸ within node member)
    refine ⟨offset, _, found, ?_, isCut⟩
    rw [begun]
    simp [Piece.render, Markers.render]
  · obtain ⟨offsets, found, increase⟩ := Piece.probes_increase delimiters distinct
    rw [starts, List.map_map] at found
    exact ⟨offsets, found, increase⟩

/--
In a syntax tree in any dialect and in a data tree with distinct identifiers, printing without markers and probing for
a node finds the byte at which the syntax of the node begins.
-/
theorem probes_findNodes :
    (forall (tree : Java.Tree) (dialect : Java.Dialect), tree.ids.Nodup ->
      FindsNodes tree.nodes (tree.printIn dialect)
        (fun node => Piece.probe? dialect.delimiters (tree.pieces dialect) node.id)
        (fun node => node.leading.render dialect.delimiters) fun node => node.printIn dialect) ∧
    forall tree : Json.Tree, tree.ids.Nodup ->
      FindsNodes tree.nodes tree.printTrimmed (fun node => Piece.probe? .slash tree.pieces node.id)
        (fun node => node.leading.render .slash) fun node => node.printTrimmed := by
  constructor
  · intro tree dialect distinct
    refine findsNodes_of_pieces (Java.starts_pieces tree) distinct
      (fun node member => Java.Tree.pieces_infix dialect member) fun node => ?_
    obtain ⟨head, form⟩ := node
    exact ⟨_, _, _, Java.Tree.pieces_node dialect head form⟩
  · intro tree distinct
    refine findsNodes_of_pieces (Json.starts_pieces tree) distinct
      (fun node member => Json.Tree.pieces_infix member) fun node => ?_
    obtain ⟨head, form⟩ := node
    exact ⟨_, _, _, Json.Tree.pieces_node head form⟩

/-- A call with a wide letter and a comment, as it is parsed. -/
def Java.wideCall : Java.Tree :=
  (((Java.parse "f(\u00e9,\n  /*\u00fc*/ b);".toList ⟨"A.java".toList⟩).toOption.getD .empty).settle.run 0).1

/-- The offsets are those of bytes: the argument behind a wide letter and a comment begins behind the fifteenth one. -/
theorem probes_findNodes_ofCall :
    Java.wideCall.printTrimmed = "f(\u00e9,\n  /*\u00fc*/ b);".toList ∧ Java.wideCall.ids.Nodup ∧
      Java.wideCall.nodes.map (fun node => Piece.probe? .slash (Java.wideCall.pieces .java) node.id) =
        [some 0, some 0, some 0, some 2, some 15] ∧
      FindsNodes Java.wideCall.nodes (Java.wideCall.printIn .java)
        (fun node => Piece.probe? .slash (Java.wideCall.pieces .java) node.id)
        (fun node => node.leading.render .slash) fun node => node.printIn .java := by
  have distinct : Java.wideCall.ids.Nodup := by decide +kernel
  refine ⟨?_, distinct, ?_, probes_findNodes.1 Java.wideCall .java distinct⟩
  · decide +kernel
  · decide +kernel

end Lossless
