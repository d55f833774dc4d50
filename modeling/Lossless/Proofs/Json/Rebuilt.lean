import Lossless.Proofs.Json.Edited

/-!
# Edits carried to the root

Nodes are not changed in place: a node above a changed one is put together again with it, and so on up to the root.
`Rebuilds` is this chain, with the functions that give a document another value, a member another key or value, and a
list other elements. In a tree with distinct identifiers every such chain comes to what `Tree.substitute` makes of the
tree, and so does the visitor that replaces a node on the way.

Only the changed node is another one then: the pieces around it are printed as before, and every other node holds what
it held. So an edit of a literal exchanges its token in the printed document and nothing else.
-/

namespace Lossless
namespace Json

variable {α : Type}

/-! ## One child in place of another -/

/-- A form is another one with one child in place of another. -/
inductive Form.Exchanges (old new : α) : Form α -> Form α -> Prop
  | document {source : SourceInfo} {eof : Space} :
      Exchanges old new (.document source old eof) (.document source new eof)
  | object {front back : List (RightPadded α)} {after : Space} {markers : Markers Space} :
      Exchanges old new (.object (front ++ ⟨old, after, markers⟩ :: back))
        (.object (front ++ ⟨new, after, markers⟩ :: back))
  | key {after : Space} {markers : Markers Space} {value : α} :
      Exchanges old new (.member ⟨old, after, markers⟩ value) (.member ⟨new, after, markers⟩ value)
  | value {key : RightPadded α} : Exchanges old new (.member key old) (.member key new)
  | array {front back : List (RightPadded α)} {after : Space} {markers : Markers Space} :
      Exchanges old new (.array (front ++ ⟨old, after, markers⟩ :: back))
        (.array (front ++ ⟨new, after, markers⟩ :: back))

section List

variable {change : α -> α} {child : α} {front back : List α}

/-- A list in which one element changes. -/
theorem exists_map_padded
    {list : List (RightPadded α)}
    (split : RightPadded.elements list = front ++ child :: back)
    (frontStays : forall other, other ∈ front -> change other = other)
    (backStays : forall other, other ∈ back -> change other = other) :
    exists paddedFront paddedBack after markers, list = paddedFront ++ ⟨child, after, markers⟩ :: paddedBack ∧
      list.map (·.map change) = paddedFront ++ ⟨change child, after, markers⟩ :: paddedBack := by
  obtain ⟨paddedFront, others, rfl, rfl, splitOthers⟩ := List.map_eq_append_iff.1 split
  obtain ⟨⟨_, after, markers⟩, paddedBack, rfl, rfl, rfl⟩ := List.map_eq_cons_iff.1 splitOthers
  refine ⟨paddedFront, paddedBack, after, markers, rfl, ?_⟩
  rw [List.map_append, List.map_cons, (RightPadded.mapList_eq_self_iff ..).2 frontStays,
    (RightPadded.mapList_eq_self_iff ..).2 backStays]
  rfl

end List

namespace Form

variable {change : α -> α} {child old new : α} {front back : List α} {form edited : Form α}

/-- When one child changes, the form has the changed one in place of it. -/
theorem exchanges_map
    (split : form.children = front ++ child :: back)
    (frontStays : forall other, other ∈ front -> change other = other)
    (backStays : forall other, other ∈ back -> change other = other) :
    Exchanges child (change child) form (form.map change) := by
  cases form with
  | document source value eof =>
      cases front with
      | nil =>
          obtain ⟨rfl, -⟩ := List.cons.inj split
          exact .document
      | cons first front => cases front <;> cases split
  | object members =>
      obtain ⟨paddedFront, paddedBack, after, markers, rfl, changed⟩ := exists_map_padded split frontStays backStays
      rw [map, changed]
      exact .object
  | member key value =>
      obtain ⟨element, after, markers⟩ := key
      have atBoth : [element, value] = front ++ child :: back := split
      cases front with
      | nil =>
          obtain ⟨rfl, rfl⟩ := List.cons.inj atBoth
          rw [map, backStays value (List.mem_singleton_self _)]
          exact .key
      | cons first front =>
          obtain ⟨rfl, atValue⟩ := List.cons.inj atBoth
          cases front with
          | nil =>
              obtain ⟨rfl, -⟩ := List.cons.inj atValue
              rw [map, RightPadded.map, frontStays element (List.mem_singleton_self _)]
              exact .value
          | cons second front => cases front <;> cases atValue
  | array values =>
      obtain ⟨paddedFront, paddedBack, after, markers, rfl, changed⟩ := exists_map_padded split frontStays backStays
      rw [map, changed]
      exact .array
  | _ => cases front <;> cases split

/-- The children of the forms differ in one. -/
theorem Exchanges.children (exchanges : Exchanges old new form edited) :
    exists front back, form.children = front ++ old :: back ∧ edited.children = front ++ new :: back := by
  cases exchanges with
  | document => exact ⟨[], [], rfl, rfl⟩
  | object => exact ⟨_, _, List.map_append .., List.map_append ..⟩
  | @key _ _ value => exact ⟨[], [value], rfl, rfl⟩
  | @value key => exact ⟨[key.element], [], rfl, rfl⟩
  | array => exact ⟨_, _, List.map_append .., List.map_append ..⟩

/-- Apart from their children the forms are the same. -/
theorem Exchanges.map_unit (exchanges : Exchanges old new form edited) :
    form.map (fun _ => ()) = edited.map fun _ => () := by
  cases exchanges <;> simp [map, RightPadded.map]

end Form

/-- Around an element of a list the pieces do not depend on it. -/
theorem exists_listElements
    (front back : List (RightPadded Tree))
    (after : Space)
    (markers : Markers Space) :
    exists before behind, forall tree : Tree,
      Pieces.listElements ((front ++ ⟨tree, after, markers⟩ :: back).map (·.map Tree.printed)) =
        before ++ (tree.pieces ++ behind) := by
  let behind : Pieces :=
    .space () after :: (back.map (·.map Tree.printed)).flatMap fun other => Pieces.symbol "," :: Pieces.padded other
  cases front with
  | nil =>
      refine ⟨[], behind, fun tree => ?_⟩
      simp [behind, Pieces.listElements, Pieces.padded, RightPadded.map, Tree.printed]
  | cons first front =>
      let before : Pieces :=
        Pieces.listElements ((first :: front).map (·.map Tree.printed)) ++ [Pieces.symbol ","]
      refine ⟨before, behind, fun tree => ?_⟩
      simp [before, behind, Pieces.listElements, Pieces.padded, RightPadded.map, Tree.printed]

/-- The pieces of forms that differ in one child differ in those of the child. -/
theorem Form.Exchanges.pieces
    {old new : Tree}
    {form edited : Form Tree}
    (exchanges : Exchanges old new form edited) :
    exists front back, Pieces.form (form.map Tree.printed) = front ++ (old.pieces ++ back) ∧
      Pieces.form (edited.map Tree.printed) = front ++ (new.pieces ++ back) := by
  cases exchanges with
  | @document _ eof => exact ⟨[], [.space () eof], rfl, rfl⟩
  | @object front back after markers =>
      obtain ⟨before, behind, pieces⟩ := exists_listElements front back after markers
      refine ⟨Pieces.symbol "\x7b" :: before, behind ++ [Pieces.symbol "\x7d"], ?_, ?_⟩ <;>
        rw [map, Pieces.form, pieces] <;> simp
  | @key after markers value =>
      refine ⟨[], .space () after :: Pieces.symbol ":" :: value.pieces, ?_, ?_⟩ <;>
        simp [map, Pieces.form, Pieces.padded, Tree.printed, RightPadded.map]
  | @value key =>
      refine ⟨Pieces.padded (key.map Tree.printed) ++ [Pieces.symbol ":"], [], ?_, ?_⟩ <;>
        simp [map, Pieces.form, Tree.printed]
  | @array front back after markers =>
      obtain ⟨before, behind, pieces⟩ := exists_listElements front back after markers
      refine ⟨Pieces.symbol "[" :: before, behind ++ [Pieces.symbol "]"], ?_, ?_⟩ <;>
        rw [map, Pieces.form, pieces] <;> simp

/-! ## One node in place of another -/

namespace Tree

variable {tree child owner old new edited : Tree} {target : Stamp} {replacement : Tree}

@[simp] theorem id_substitute
    (same : replacement.id = target)
    (tree : Tree) :
    (tree.substitute target replacement).id = tree.id := by
  obtain ⟨head, form⟩ := tree
  rw [substitute_node]
  split
  · next here => exact same.trans here.symm
  · exact id_revise ..

/-- The root itself can be replaced. -/
theorem substitute_root
    (tree replacement : Tree) :
    tree.substitute tree.id replacement = replacement := by
  obtain ⟨head, form⟩ := tree
  exact (substitute_node head form).trans (if_pos rfl)

/-- A node that is not replaced itself is put together again with its children. -/
theorem substitute_eq_withForm (elsewhere : tree.id ≠ target) :
    tree.substitute target replacement = tree.withForm (tree.form.map (·.substitute target replacement)) := by
  obtain ⟨head, form⟩ := tree
  exact (substitute_node head form).trans (if_neg elsewhere)

/-- With distinct identifiers a node that is replaced below a child is not below another one, nor above it. -/
theorem others_of_mem_child
    (distinct : tree.ids.Nodup)
    (inside : target ∈ child.ids)
    {front back : List Tree}
    (split : tree.form.children = front ++ child :: back) :
    tree.id ≠ target ∧ (forall other, other ∈ front -> target ∉ other.ids) ∧
      forall other, other ∈ back -> target ∉ other.ids := by
  rw [ids_eq, split, List.flatMap_append, List.flatMap_cons, List.nodup_cons] at distinct
  obtain ⟨notBelow, distinct⟩ := distinct
  obtain ⟨-, behind, apart⟩ := List.nodup_append.1 distinct
  obtain ⟨-, -, apartBehind⟩ := List.nodup_append.1 behind
  refine ⟨?_, fun other member found => ?_, fun other member found => ?_⟩
  · rintro rfl
    exact notBelow (List.mem_append_right _ (List.mem_append_left _ inside))
  · exact apart _ (List.mem_flatMap.2 ⟨other, member, found⟩) _ (List.mem_append_left _ inside) rfl
  · exact apartBehind _ inside _ (List.mem_flatMap.2 ⟨other, member, found⟩) rfl

/-- With distinct identifiers a node below a child is replaced by putting the changed child in place of the child. -/
theorem exchanges_substitute
    (distinct : tree.ids.Nodup)
    (isChild : child ∈ tree.form.children)
    (inside : target ∈ child.ids) :
    tree.id ≠ target ∧ Form.Exchanges child (child.substitute target replacement) tree.form
      (tree.form.map (·.substitute target replacement)) := by
  obtain ⟨front, back, split⟩ := List.append_of_mem isChild
  obtain ⟨elsewhere, notFront, notBack⟩ := others_of_mem_child distinct inside split
  exact ⟨elsewhere, Form.exchanges_map split (fun other member => substitute_of_notMem (notFront other member))
    fun other member => substitute_of_notMem (notBack other member)⟩

theorem id_mem_ids (member : owner ∈ tree.nodes) : owner.id ∈ tree.ids :=
  List.mem_map_of_mem member

/-- A node in its own place changes nothing. -/
theorem substitute_self (unique : forall other, other ∈ tree.nodes -> other.id = owner.id -> other = owner) :
    tree.substitute owner.id owner = tree := by
  induction tree using Tree.induction with
  | step head form ih =>
      by_cases here : head.id = owner.id
      · rw [substitute_node, if_pos here]
        exact (unique _ (mem_nodes_self _) here).symm
      · have same : form.map (·.substitute owner.id owner) = form := by
          refine (Form.map_eq_self_iff _ form).2 fun child isChild => ih child isChild fun other inside => ?_
          exact unique other (mem_nodes_of_mem_children isChild inside)
        rw [substitute_node, if_neg here, same]
        exact revise_self (node head form)

/-! ## Chains of edits -/

/--
A tree is another one with a node in place of another: each node above it is put together again by the function that
gives a document another value, a member another key or another value, or an object or an array other elements.
-/
inductive Rebuilds (old new : Tree) : Tree -> Tree -> Prop
  | here : Rebuilds old new old new
  | document {tree child edited : Tree} {source : SourceInfo} {eof : Space} :
      tree.form = .document source child eof -> Rebuilds old new child edited ->
        Rebuilds old new tree (tree.withForm (.document source edited eof))
  | key {tree edited value : Tree} {key : RightPadded Tree} :
      tree.form = .member key value -> Rebuilds old new key.element edited ->
        Rebuilds old new tree (tree.withForm (.member { key with element := edited } value))
  | value {tree child edited : Tree} {key : RightPadded Tree} :
      tree.form = .member key child -> Rebuilds old new child edited ->
        Rebuilds old new tree (tree.withMemberValue edited)
  | list {tree child edited rebuilt : Tree} {padded : List (RightPadded Tree)} {front back : List Tree} :
      tree.elements? = some padded -> RightPadded.elements padded = front ++ child :: back ->
        Rebuilds old new child edited -> tree.withElements (front ++ edited :: back) = .ok rebuilt ->
          Rebuilds old new tree rebuilt

/-- A list takes changed elements with the padding that they had. -/
theorem withElements_map
    {padded : List (RightPadded Tree)}
    {change : Tree -> Tree}
    (distinct : tree.ids.Nodup)
    (isList : tree.elements? = some padded)
    (sameId : forall element, (change element).id = element.id) :
    tree.withElements ((RightPadded.elements padded).map change) = .ok (tree.withForm (tree.form.map change)) := by
  have padding : ((RightPadded.elements padded).map change).map (RightPadded.repad padded) =
      padded.map (·.map change) := by
    rw [RightPadded.elements, List.map_map, List.map_map]
    refine List.map_congr_left fun element member => ?_
    exact RightPadded.repad_of_mem (nodup_elementIds distinct isList) member (sameId element.element).symm
  have isDone := RightPadded.withElements_of_nodup (nodup_elementIds distinct isList)
    ((RightPadded.elements padded).map change)
  rw [padding] at isDone
  rcases form_of_elements? isList with form | form
  · rw [form]
    exact withElements_of_object form isDone
  · rw [form]
    exact withElements_of_array form isDone

/-- A list in which one element is changed. -/
theorem map_substitute_elements
    {padded : List (RightPadded Tree)}
    {front back : List Tree}
    (distinct : tree.ids.Nodup)
    (isList : tree.elements? = some padded)
    (split : RightPadded.elements padded = front ++ child :: back)
    (inside : target ∈ child.ids)
    (replacement : Tree) :
    (RightPadded.elements padded).map (·.substitute target replacement) =
      front ++ child.substitute target replacement :: back := by
  obtain ⟨-, notFront, notBack⟩ :=
    others_of_mem_child distinct inside ((children_of_elements? isList).trans split)
  have stays {list : List Tree} (absent : forall other, other ∈ list -> target ∉ other.ids) :
      list.map (·.substitute target replacement) = list :=
    (List.map_congr_left fun other member => substitute_of_notMem (absent other member)).trans (List.map_id' list)
  rw [split, List.map_append, List.map_cons, stays notFront, stays notBack]

namespace Rebuilds

theorem mem_nodes (rebuilds : Rebuilds old new tree edited) : old ∈ tree.nodes := by
  induction rebuilds with
  | here => exact mem_nodes_self old
  | document form _ ih => exact mem_nodes_of_mem_children (by rw [form]; exact List.mem_singleton_self _) ih
  | key form _ ih => exact mem_nodes_of_mem_children (by rw [form]; exact List.mem_cons_self) ih
  | value form _ ih =>
      exact mem_nodes_of_mem_children (by rw [form]; exact List.mem_cons_of_mem _ (List.mem_singleton_self _)) ih
  | list isList split _ _ ih =>
      refine mem_nodes_of_mem_children ?_ ih
      rw [children_of_elements? isList, split]
      exact List.mem_append_right _ List.mem_cons_self

/-- With distinct identifiers a node that is replaced below a child is nowhere else. -/
theorem apart
    {front back : List Tree}
    (rebuilds : Rebuilds old new child edited)
    (distinct : tree.ids.Nodup)
    (split : tree.form.children = front ++ child :: back) :
    child.ids.Nodup ∧ tree.id ≠ old.id ∧ (forall other, other ∈ front -> old.id ∉ other.ids) ∧
      forall other, other ∈ back -> old.id ∉ other.ids := by
  have isChild : child ∈ tree.children := by
    rw [children, split]
    exact List.mem_append_right _ List.mem_cons_self
  exact ⟨nodup_ids_of_mem_children distinct isChild, others_of_mem_child distinct (id_mem_ids rebuilds.mem_nodes) split⟩

/-- With distinct identifiers a chain of edits replaces the one node. -/
theorem eq_substitute
    (rebuilds : Rebuilds old new tree edited)
    (distinct : tree.ids.Nodup)
    (same : new.id = old.id) :
    edited = tree.substitute old.id new := by
  induction rebuilds with
  | here => exact (substitute_root old new).symm
  | @document tree child edited source eof form below ih =>
      have split : tree.form.children = [] ++ child :: [] := by rw [form]; rfl
      obtain ⟨distinctChild, elsewhere, -, -⟩ := below.apart distinct split
      rw [substitute_eq_withForm elsewhere, form, Form.map, ih distinctChild]
  | @key tree edited value key form below ih =>
      have split : tree.form.children = [] ++ key.element :: [value] := by rw [form]; rfl
      obtain ⟨distinctKey, elsewhere, -, notValue⟩ := below.apart distinct split
      rw [substitute_eq_withForm elsewhere, form, Form.map, ih distinctKey,
        substitute_of_notMem (notValue value (List.mem_singleton_self _))]
      rfl
  | @value tree child edited key form below ih =>
      have split : tree.form.children = [key.element] ++ child :: [] := by rw [form]; rfl
      obtain ⟨distinctChild, elsewhere, notKey, -⟩ := below.apart distinct split
      have keyStays : key.map (·.substitute old.id new) = key :=
        (RightPadded.map_eq_self_iff ..).2 (substitute_of_notMem (notKey key.element (List.mem_singleton_self _)))
      rw [substitute_eq_withForm elsewhere, withMemberValue, form, Form.map, keyStays, ih distinctChild]
  | @list tree child edited rebuilt padded front back isList split below isDone ih =>
      obtain ⟨distinctChild, elsewhere, -, -⟩ := below.apart distinct ((children_of_elements? isList).trans split)
      have list := map_substitute_elements distinct isList split (id_mem_ids below.mem_nodes) new
      rw [ih distinctChild, <- list, withElements_map distinct isList (id_substitute same)] at isDone
      rw [substitute_eq_withForm elsewhere]
      exact (Except.ok.inj isDone).symm

/-- A chain goes on from where another one has come. -/
theorem trans
    {middle changed : Tree}
    (first : Rebuilds old new middle changed)
    (second : Rebuilds middle changed tree edited) :
    Rebuilds old new tree edited := by
  induction second with
  | here => exact first
  | document form _ ih => exact .document form ih
  | key form _ ih => exact .key form ih
  | value form _ ih => exact .value form ih
  | list isList split _ isDone ih => exact .list isList split ih isDone

end Rebuilds

/-- With distinct identifiers there is a chain of edits from every node to the root. -/
theorem rebuilds_substitute
    (distinct : tree.ids.Nodup)
    (member : old ∈ tree.nodes)
    (same : new.id = old.id) :
    Rebuilds old new tree (tree.substitute old.id new) := by
  -- any chain will do, since all of them come to the same tree
  suffices rebuilds : exists edited, Rebuilds old new tree edited by
    obtain ⟨edited, rebuilds⟩ := rebuilds
    rwa [<- rebuilds.eq_substitute distinct same]
  induction tree using Tree.induction with
  | step head form ih =>
      rw [nodes_node] at member
      rcases List.mem_cons.1 member with rfl | below
      · exact ⟨new, .here⟩
      · obtain ⟨child, isChild, inside⟩ := List.mem_flatMap.1 below
        have distinctChild := nodup_ids_of_mem_children distinct isChild
        obtain ⟨edited, rebuilds⟩ := ih child isChild distinctChild inside
        have list {padded : List (RightPadded Tree)} (isList : (node head form).elements? = some padded)
            (isElement : child ∈ RightPadded.elements padded) :
            exists rebuilt, Rebuilds old new (node head form) rebuilt := by
          obtain ⟨front, back, split⟩ := List.append_of_mem isElement
          have list := map_substitute_elements distinct isList split (id_mem_ids inside) new
          have isDone := withElements_map distinct isList (id_substitute same)
          rw [list, <- rebuilds.eq_substitute distinctChild same] at isDone
          exact ⟨_, .list isList split rebuilds isDone⟩
        cases form with
        | document source value eof =>
            obtain rfl := List.mem_singleton.1 isChild
            exact ⟨_, .document rfl rebuilds⟩
        | object members => exact list rfl isChild
        | member key value =>
            rcases List.mem_cons.1 isChild with rfl | isValue
            · exact ⟨_, .key rfl rebuilds⟩
            · obtain rfl := List.mem_singleton.1 isValue
              exact ⟨_, .value rfl rebuilds⟩
        | array values => exact list rfl isChild
        | literal source value => cases isChild
        | identifier name => cases isChild
        | empty => cases isChild

/-- It makes no difference at which node above the changed one the visitor takes over. -/
theorem replaceFirst_of_rebuilds
    {changed : Tree}
    (distinct : tree.ids.Nodup)
    (isOwner : owner ∈ tree.nodes)
    (rebuilds : Rebuilds old new owner changed)
    (same : new.id = old.id) :
    tree.replaceFirst owner.id changed = tree.substitute old.id new := by
  have isChanged := rebuilds.eq_substitute (nodup_ids_of_mem_nodes distinct isOwner) same
  have sameOwner : changed.id = owner.id := by rw [isChanged, id_substitute same]
  rw [replaceFirst_eq distinct]
  exact (rebuilds.trans (rebuilds_substitute distinct isOwner sameOwner)).eq_substitute distinct same

/-! ## Everything else -/

/-- What passes from a changed child to the node above it holds of the whole tree. -/
theorem substitute_induction
    {motive : Tree -> Tree -> Prop}
    (here : motive old new)
    (step : forall {tree child edited : Tree} {form : Form Tree},
      Form.Exchanges child edited tree.form form -> motive child edited -> motive tree (tree.withForm form))
    (distinct : tree.ids.Nodup)
    (member : old ∈ tree.nodes) :
    motive tree (tree.substitute old.id new) := by
  induction tree using Tree.induction with
  | step head form ih =>
      rw [nodes_node] at member
      rcases List.mem_cons.1 member with rfl | below
      · rw [substitute_root]
        exact here
      · obtain ⟨child, isChild, inside⟩ := List.mem_flatMap.1 below
        obtain ⟨elsewhere, exchanges⟩ := exchanges_substitute distinct isChild (id_mem_ids inside)
        rw [substitute_eq_withForm elsewhere]
        exact step exchanges (ih child isChild (nodup_ids_of_mem_children distinct isChild) inside)

theorem pieces_eq (tree : Tree) :
    tree.pieces = .space () tree.leading :: .start tree.id tree.markers ::
      (Pieces.form (tree.form.map printed) ++ [.finish tree.id]) := by
  obtain ⟨head, form⟩ := tree
  exact pieces_node head form

/-- Around a node that is replaced the same pieces are printed. -/
theorem pieces_substitute
    (distinct : tree.ids.Nodup)
    (member : old ∈ tree.nodes)
    (new : Tree) :
    exists front back, tree.pieces = front ++ (old.pieces ++ back) ∧
      (tree.substitute old.id new).pieces = front ++ (new.pieces ++ back) := by
  refine substitute_induction (motive := fun tree edited => exists front back,
    tree.pieces = front ++ (old.pieces ++ back) ∧ edited.pieces = front ++ (new.pieces ++ back)) ?_ ?_ distinct member
  · exact ⟨[], [], by simp, by simp⟩
  · rintro tree child edited form exchanges ⟨front, back, before, after⟩
    obtain ⟨outerFront, outerBack, outerBefore, outerAfter⟩ := exchanges.pieces
    refine ⟨.space () tree.leading :: .start tree.id tree.markers :: (outerFront ++ front),
      back ++ (outerBack ++ [.finish tree.id]), ?_, ?_⟩
    · rw [pieces_eq, outerBefore, before]
      simp
    · rw [pieces_eq, withForm, leading_revise, markers_revise, id_revise, form_revise, outerAfter, after]
      simp

end Tree

/-- What a node holds apart from its children. -/
structure Shell where
  id : Stamp
  leading : Space
  markers : Markers Space
  form : Form Unit

namespace Tree

variable {tree old : Tree}

def shell (tree : Tree) : Shell :=
  ⟨tree.id, tree.leading, tree.markers, tree.form.map fun _ => ()⟩

/-- What the nodes of a tree hold, the node itself first. -/
def shells (tree : Tree) : List Shell :=
  tree.nodes.map shell

theorem shells_eq (tree : Tree) : tree.shells = tree.shell :: tree.form.children.flatMap shells := by
  obtain ⟨head, form⟩ := tree
  rw [shells, nodes_node, List.map_cons, List.map_flatMap]
  rfl

theorem unmarked_iff (tree : Tree) :
    (forall node, node ∈ tree.nodes -> node.markers.toList = []) ↔
      forall shell, shell ∈ tree.shells -> shell.markers.toList = [] := by
  rw [shells, List.forall_mem_map]
  rfl

/-- Around a node that is replaced every node holds what it held. -/
theorem shells_substitute
    (distinct : tree.ids.Nodup)
    (member : old ∈ tree.nodes)
    (new : Tree) :
    exists front back, tree.shells = front ++ (old.shells ++ back) ∧
      (tree.substitute old.id new).shells = front ++ (new.shells ++ back) := by
  refine substitute_induction (motive := fun tree edited => exists front back,
    tree.shells = front ++ (old.shells ++ back) ∧ edited.shells = front ++ (new.shells ++ back)) ?_ ?_ distinct member
  · exact ⟨[], [], by simp, by simp⟩
  · rintro tree child edited form exchanges ⟨front, back, before, after⟩
    obtain ⟨outerFront, outerBack, outerBefore, outerAfter⟩ := exchanges.children
    refine ⟨tree.shell :: (outerFront.flatMap shells ++ front), back ++ outerBack.flatMap shells, ?_, ?_⟩
    · rw [shells_eq, outerBefore, List.flatMap_append, List.flatMap_cons, before]
      simp
    · have sameShell : (tree.withForm form).shell = tree.shell := by
        rw [shell, shell, withForm, leading_revise, markers_revise, id_revise, form_revise, exchanges.map_unit]
      rw [shells_eq, sameShell, withForm, form_revise, outerAfter, List.flatMap_append, List.flatMap_cons, after]
      simp

end Tree

/-! ## Values -/

/-- A magnitude up to infinity is that of a number. -/
theorem isNaN_ofBits
    (negative : Bool)
    {magnitude : Nat}
    (small : magnitude ≤ Binary64.infinityBits) :
    (Binary64.ofBits negative magnitude).isNaN = false := by
  have bound : magnitude < 2 ^ 63 := Nat.lt_of_le_of_lt small (by decide)
  have same : (Binary64.ofBits negative magnitude).magnitudeBits = magnitude := by
    unfold Binary64.ofBits Binary64.magnitudeBits
    cases negative <;> simp <;> omega
  rw [Binary64.isNaN, same]
  exact decide_eq_false (Nat.not_lt.2 small)

/-- No numeral is read as what is not a number. -/
theorem isNaN_of_ofText?
    {text : Text}
    {number : Binary64}
    (isRead : Binary64.ofText? text = some number) :
    number.isNaN = false := by
  obtain ⟨decimal, -, rfl⟩ := Option.map_eq_some_iff.1 isRead
  unfold Decimal.toBinary64 Binary64.ofRatio
  dsimp only
  split
  · exact isNaN_ofBits _ (Nat.zero_le _)
  · split
    · exact isNaN_ofBits _ le_rfl
    · split
      · exact isNaN_ofBits _ (Nat.zero_le _)
      · exact isNaN_ofBits _ (Nat.min_le_right ..)

/-- A value that is read from a token agrees with itself. -/
theorem Scalar.IsWrittenAs.agrees_self
    {value : Scalar}
    {token : Text}
    (isWritten : value.IsWrittenAs token) :
    value.agrees value = true := by
  cases value with
  | number number =>
      obtain ⟨-, -, isRead⟩ := isWritten
      simp [agrees, Binary64.agrees, isNaN_of_ofText? isRead]
  | _ => simp [agrees]

/-! ## Edits of literals -/

/-- A part has no markers, nor has any node below it. -/
theorem Tree.IsPart.unmarked_nodes
    {tree : Tree}
    (part : tree.IsPart) :
    forall node, node ∈ tree.nodes -> node.markers.toList = [] := by
  induction tree using Tree.induction with
  | step head form ih =>
      intro node member
      rw [nodes_node] at member
      rcases List.mem_cons.1 member with rfl | below
      · exact part.unmarked
      · obtain ⟨child, isChild, inside⟩ := List.mem_flatMap.1 below
        exact ih child isChild (part.canonical.part isChild) node inside

/-- A tree without markers is printed alike with and without its markers. -/
theorem renderAll_pieces_of_unmarked
    {tree : Tree}
    (unmarked : forall node, node ∈ tree.nodes -> node.markers.toList = [])
    (output : MarkerOutput) :
    Piece.renderAll .slash output tree.pieces = tree.printTrimmed := by
  induction tree using Tree.induction with
  | step head form ih =>
      have same (child : Tree) (isChild : child ∈ form.children) :
          Piece.renderAll .slash output child.pieces = child.printTrimmed :=
        ih child isChild fun node inside => unmarked node (Tree.mem_nodes_of_mem_children isChild inside)
      have noMarkers : head.markers.toList = [] := unmarked _ (Tree.mem_nodes_self _)
      have marked : head.markers.render output = [] := by cases output <;> simp [Markers.render, noMarkers]
      have written : Piece.renderAll .slash output (Pieces.form (form.map Tree.printed)) = form.written := by
        cases form with
        | document source value eof =>
            have sameValue := same value (List.mem_singleton_self _)
            simp [Form.map, Pieces.form, Tree.printed, Piece.render, sameValue]
        | object members =>
            simp [Form.map, Pieces.form, Pieces.symbol, Piece.render, renderAll_listElements_of_same same]
        | member key value =>
            have sameKey := same key.element List.mem_cons_self
            have sameValue := same value (List.mem_cons_of_mem _ (List.mem_singleton_self _))
            simp [Form.map, Pieces.form, Pieces.symbol, Tree.printed, Piece.render, renderAll_padded_of_same sameKey,
              sameValue]
        | array values =>
            simp [Form.map, Pieces.form, Pieces.symbol, Piece.render, renderAll_listElements_of_same same]
        | literal source value => simp [Form.map, Pieces.form, Piece.render]
        | identifier name => simp [Form.map, Pieces.form, Piece.render]
        | empty => rfl
      rw [Tree.pieces_node, Tree.printTrimmed_eq]
      simp [Piece.render, marked, written, Tree.leading, Tree.head]

/-- A numbered document is printed as its source. -/
theorem printTrimmed_settle_of_parse
    {source : Text}
    {path : Path}
    {tree : Tree}
    (paired : source.hasPairedReturns = true)
    (parsed : parse source path = .ok tree)
    (next : Nat) :
    (tree.settle.run next).1.printTrimmed = source := by
  obtain ⟨_, _, -, -, printed⟩ := document_of_parse paired parsed
  have part := (isDocumentOf_of_parse paired parsed).isPart
  rw [<- printTrimmed_renewed, part.renewed_settle next, printTrimmed_renewed, printed]

section Literal

variable {node : Tree} {token : Text} {old : Scalar}

theorem pieces_literal (isLiteral : node.form = .literal token old) :
    node.pieces = [.space () node.leading, .start node.id node.markers, .token token, .finish node.id] := by
  rw [Tree.pieces_eq, isLiteral]
  rfl

theorem shells_literal (isLiteral : node.form = .literal token old) :
    node.shells = [⟨node.id, node.leading, node.markers, .literal token old⟩] := by
  rw [Tree.shells_eq, Tree.shell, isLiteral]
  rfl

/-- A literal with another value is written anew in its place; for the value that it has it is the same cell. -/
theorem exists_withScalar
    (isLiteral : node.form = .literal token old)
    (value : Scalar) :
    exists newToken newValue, (node.withScalar value).form = .literal newToken newValue ∧
      (if value.agrees old then newToken = token ∧ newValue = old ∧ node.withScalar value = node
        else newToken = value.render ∧ newValue = value) ∧
      (node.withScalar value).id = node.id ∧ (node.withScalar value).leading = node.leading ∧
      (node.withScalar value).markers = node.markers := by
  by_cases agrees : value.agrees old = true
  · have same : node.withScalar value = node := by
      rw [Tree.withScalar, isLiteral]
      exact if_pos agrees
    rw [same]
    refine ⟨token, old, isLiteral, ?_, rfl, rfl, rfl⟩
    rw [if_pos agrees]
    exact ⟨rfl, rfl, rfl⟩
  · have anew : node.withScalar value = .node { node.head with stamp := .pending } (.literal value.render value) := by
      rw [Tree.withScalar, isLiteral]
      exact if_neg agrees
    rw [anew]
    refine ⟨value.render, value, rfl, ?_, rfl, rfl, rfl⟩
    rw [if_neg agrees]
    exact ⟨rfl, rfl⟩

end Literal

/--
Give a literal of a parsed document another value, and put the document together again by the functions that edit the
nodes above it, or leave that to the visitor from any of these on. All ways lead to one document. It is printed as the
source with the token of the literal exchanged, every other node keeps its identifier, its spaces, its markers and its
own text, and the document itself is given back for the value that the literal had.
-/
theorem valueEdit_isLocal
    (source : Text)
    (path : Path)
    (paired : source.hasPairedReturns = true)
    (tree : Tree)
    (parsed : parse source path = .ok tree)
    (next : Nat)
    (document : Tree)
    (isNumbered : document = (tree.settle.run next).1)
    (node : Tree)
    (isNode : node ∈ document.nodes)
    (token : Text)
    (old : Scalar)
    (isLiteral : node.form = .literal token old)
    (value : Scalar) :
    old.agrees old = true ∧
      exists edited newToken newValue,
        (node.withScalar value).form = .literal newToken newValue ∧
        (if value.agrees old then newToken = token ∧ newValue = old ∧ edited = document
          else newToken = value.render ∧ newValue = value) ∧
        Tree.Rebuilds node (node.withScalar value) document edited ∧
        (forall other, Tree.Rebuilds node (node.withScalar value) document other -> other = edited) ∧
        (forall owner changed, owner ∈ document.nodes -> Tree.Rebuilds node (node.withScalar value) owner changed ->
          document.replaceFirst owner.id changed = edited) ∧
        (exists front back,
          document.pieces = front ++ .start node.id node.markers :: .token token :: .finish node.id :: back ∧
          edited.pieces = front ++ .start node.id node.markers :: .token newToken :: .finish node.id :: back ∧
          source = Piece.renderAll .slash .hidden front ++ (token ++ Piece.renderAll .slash .hidden back) ∧
          edited.printTrimmed =
            Piece.renderAll .slash .hidden front ++ (newToken ++ Piece.renderAll .slash .hidden back)) ∧
        edited.print = edited.printTrimmed ∧
        exists front back,
          document.shells = front ++ ⟨node.id, node.leading, node.markers, .literal token old⟩ :: back ∧
          edited.shells = front ++ ⟨node.id, node.leading, node.markers, .literal newToken newValue⟩ :: back := by
  have sameText : document.printTrimmed = source := by
    rw [isNumbered]
    exact printTrimmed_settle_of_parse paired parsed next
  obtain ⟨isDocument, distinct⟩ := settle_of_parse paired parsed next
  rw [<- isNumbered] at isDocument distinct
  have isWritten : old.IsWrittenAs token := by
    have fits := (isDocument.canonical node isNode).fits
    rwa [isLiteral] at fits
  obtain ⟨newToken, newValue, isChanged, outcome, sameId, sameLeading, sameMarkers⟩ := exists_withScalar isLiteral value
  refine ⟨isWritten.agrees_self, document.substitute node.id (node.withScalar value), newToken, newValue, isChanged, ?_,
    Tree.rebuilds_substitute distinct isNode sameId, ?_, ?_, ?_, ?_⟩
  · split at outcome
    · next agrees =>
        obtain ⟨sameToken, sameValue, same⟩ := outcome
        rw [if_pos agrees, same]
        exact ⟨sameToken, sameValue, Tree.substitute_self fun other => Tree.eq_of_id_eq distinct isNode⟩
    · next agrees =>
        rw [if_neg agrees]
        exact outcome
  · exact fun other rebuilds => rebuilds.eq_substitute distinct sameId
  · exact fun owner changed isOwner rebuilds => Tree.replaceFirst_of_rebuilds distinct isOwner rebuilds sameId
  · obtain ⟨front, back, before, after⟩ := Tree.pieces_substitute distinct isNode (node.withScalar value)
    rw [pieces_literal isLiteral] at before
    rw [pieces_literal isChanged, sameId, sameLeading, sameMarkers] at after
    refine ⟨front ++ [.space () node.leading], back, by simpa using before, by simpa using after, ?_, ?_⟩
    · rw [<- sameText, Tree.printTrimmed, before]
      simp [Piece.render, Markers.render]
    · rw [Tree.printTrimmed, after]
      simp [Piece.render, Markers.render]
  · obtain ⟨front, back, before, after⟩ := Tree.shells_substitute distinct isNode (node.withScalar value)
    rw [shells_literal isLiteral] at before
    rw [shells_literal isChanged, sameId, sameLeading, sameMarkers] at after
    have unmarked := (Tree.unmarked_iff document).1 isDocument.isPart.unmarked_nodes
    refine ⟨renderAll_pieces_of_unmarked ((Tree.unmarked_iff _).2 ?_) .shown, front, back, before, after⟩
    rw [before] at unmarked
    rw [after]
    simpa only [List.forall_mem_append, List.forall_mem_cons] using unmarked

/-- The source with another first element in the list. -/
example :
    ((parse commentedList ⟨"a.json".toList⟩).toOption.bind fun tree =>
      let document := (tree.settle.run 0).1
      document.nodes[5]?.map fun node =>
        (document.replaceFirst node.id (node.withScalar (.string "one".toList))).printTrimmed) =
      some "\x7b a: [\"one\" /* one */, // first\n 2 // second\n , ], \x7d\n".toList := by
  decide +kernel

/-- The first element of the list can be given another value. -/
theorem valueEdit_ofFirst :
    commentedList.hasPairedReturns = true ∧
      exists tree node old edited, parse commentedList ⟨"a.json".toList⟩ = .ok tree ∧
        node ∈ (tree.settle.run 0).1.nodes ∧ node.form = .literal ['1'] old ∧
        Tree.Rebuilds node (node.withScalar (.string "one".toList)) (tree.settle.run 0).1 edited ∧
        exists before after, commentedList = before ++ (['1'] ++ after) ∧
          edited.printTrimmed = before ++ ("\"one\"".toList ++ after) := by
  have paired : commentedList.hasPairedReturns = true := by decide +kernel
  have found : ((parse commentedList ⟨"a.json".toList⟩).toOption.bind fun tree =>
      (tree.settle.run 0).1.nodes[5]?.map fun node => node.form) =
        some (.literal ['1'] (.number ⟨0x3ff0000000000000⟩)) := by decide +kernel
  obtain ⟨tree, parsed, found⟩ := Option.bind_eq_some_iff.1 found
  obtain ⟨node, isNode, isLiteral⟩ := Option.map_eq_some_iff.1 found
  have isOk : parse commentedList ⟨"a.json".toList⟩ = .ok tree := by
    cases outcome : parse commentedList ⟨"a.json".toList⟩ with
    | error => rw [outcome] at parsed; cases parsed
    | ok other => rw [outcome] at parsed; exact congrArg Except.ok (Option.some.inj parsed)
  obtain ⟨-, edited, newToken, newValue, -, isNew, rebuilds, -, -, ⟨front, back, -, -, sourceText, editedText⟩, -⟩ :=
    valueEdit_isLocal commentedList ⟨"a.json".toList⟩ paired tree isOk 0 _ rfl node (List.mem_of_getElem? isNode) _ _
      isLiteral (.string "one".toList)
  rw [if_neg (by decide)] at isNew
  obtain ⟨rfl, -⟩ := isNew
  exact ⟨paired, tree, node, _, edited, isOk, List.mem_of_getElem? isNode, isLiteral, rebuilds, _, _, sourceText,
    editedText⟩

end Json
end Lossless
