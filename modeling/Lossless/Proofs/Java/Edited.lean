import Lossless.Java.Language
import Lossless.Proofs.Editing
import Lossless.Proofs.Java.Numbered
import Lossless.Proofs.Java.Walk
import Lossless.Proofs.Padding

/-!
# Edits of syntax trees

`Tree.substitute` puts a tree in the place of the nodes with an identifier. Where identifiers are distinct that is one
node, and the visitor that replaces a node does just that.

Putting one node in place of another exchanges the identifiers below them. So an edit of a list exchanges those of its
elements, and it is done whenever the identifiers in the tree are distinct.
-/

namespace Lossless
namespace Java

/-! ## One node in place of another -/

section Replacing

open VisitM

variable {tree replacement : Tree} {target : Stamp}

namespace Tree

/-- The tree with another one in place of the nodes with an identifier; nodes without such nodes below stay the same cells. -/
def substitute
    (tree : Tree)
    (target : Stamp)
    (replacement : Tree) : Tree :=
  recurse
    (fun head form =>
      if head.id = target then replacement
      else (node head (form.map Prod.fst)).revise head.leading head.markers (form.map Prod.snd))
    tree

theorem substitute_node
    (head : Head)
    (form : Form Tree) :
    (node head form).substitute target replacement =
      if head.id = target then replacement
      else (node head form).revise head.leading head.markers (form.map (·.substitute target replacement)) := by
  rw [substitute, recurse_node, Form.map_fst_withValue, Form.map_map]
  rfl

/-- A tree without the identifier stays as it is. -/
theorem substitute_of_notMem (absent : target ∉ tree.ids) : tree.substitute target replacement = tree := by
  induction tree using Tree.induction with
  | step head form ih =>
      rw [ids_node, List.mem_cons, List.mem_flatMap, not_or] at absent
      have children : form.map (·.substitute target replacement) = form := by
        apply (Form.map_eq_self_iff _ form).2
        intro child member
        exact ih child member fun inside => absent.2 ⟨child, member, inside⟩
      rw [substitute_node, if_neg (Ne.symm absent.1), children]
      exact revise_self (node head form)

theorem nodup_ids_of_mem_children
    {child : Tree}
    (distinct : tree.ids.Nodup)
    (member : child ∈ tree.children) :
    child.ids.Nodup := by
  obtain ⟨head, form⟩ := tree
  rw [ids_node] at distinct
  exact (List.nodup_flatMap.1 (List.nodup_cons.1 distinct).2).1 child member

/-! ### The visitor -/

/-- A node that is not replaced itself is revised with its changed children. -/
theorem appliedTo_node
    {own : Replacement Tree}
    {head : Head}
    {form : Form Tree}
    (elsewhere : forall pair, own = some pair -> head.id ≠ pair.1) :
    Replacement.appliedTo substitute own (node head form) =
      (node head form).revise head.leading head.markers (form.map (Replacement.appliedTo substitute own)) := by
  cases own with
  | none =>
      have same : form.map (Replacement.appliedTo substitute none) = form := (Form.map_eq_self_iff _ form).2 fun _ _ => rfl
      rw [same]
      exact (revise_self (node head form)).symm
  | some pair => exact (substitute_node head form).trans (if_neg (elsewhere pair rfl))

end Tree

theorem replaceVisitor_isPlain : replaceVisitor.traversal.IsPlain :=
  ⟨fun _ => .pure _, fun _ => .pure _, fun _ => .pure _, fun _ => .pure _⟩

theorem replaceVisitor_hooks : replaceVisitor.toGapVisitor.IsPlain :=
  ⟨fun _ _ => .pure _, fun _ => .pure _⟩

/-- The dispatch at a node replaces the node, or goes on to its children. -/
theorem replaceVisitor_moves
    {visit : Tree -> TreeVisit (Replacement Tree) Unit (Option Tree)}
    (distinct : tree.ids.Nodup)
    (children : forall child, child ∈ tree.children -> forall own,
      (visit child).Moves own (Replacement.behind own child.ids) (some (Replacement.appliedTo Tree.substitute own child)))
    (own : Replacement Tree) :
    (replaceVisitor.traversal.dispatch visit tree).Moves own (Replacement.behind own tree.ids)
      (some (Replacement.appliedTo Tree.substitute own tree)) := by
  obtain ⟨head, form⟩ := tree
  rw [Tree.ids_node] at distinct ⊢
  have replaces (replacement : Tree) : (Tree.node head form).substitute head.id replacement = replacement := by
    rw [Tree.substitute_node, if_pos rfl]
  refine Replacement.dispatch_moves replaces (fun own elsewhere => ?_) own
  have revised : Replacement.appliedTo Tree.substitute own (.node head form) = _ := Tree.appliedTo_node elsewhere
  rw [revised]
  apply replaceVisitor.descend_moves replaceVisitor_hooks rfl
  exact Replacement.proceeds (fun _ _ _ => Tree.substitute_of_notMem) children (List.nodup_cons.1 distinct).2 own

namespace Tree

/-- In a tree with distinct identifiers the visitor replaces the one node with the identifier. -/
theorem replaceFirst_eq
    (distinct : tree.ids.Nodup)
    (target : Stamp)
    (replacement : Tree) :
    tree.replaceFirst target replacement = tree.substitute target replacement := by
  have moves := replaceVisitor_isPlain.visit_moves (Replacement.appliedTo substitute)
    (fun own tree => Replacement.behind own tree.ids) children height
    (fun tree child member => by obtain ⟨head, form⟩ := tree; exact height_lt_of_mem_children member)
    (fun _ _ => Nat.le_refl _) (fun tree => tree.ids.Nodup) (fun _ _ => nodup_ids_of_mem_children)
    (fun _ _ distinct children => replaceVisitor_moves distinct children) tree distinct (some (target, replacement))
  have visited : (replaceVisitor.run tree).runFrom (.start .root .never (some (target, replacement)) ()) = _ :=
    moves (.start .root .never (some (target, replacement)) ()) ⟨rfl, rfl⟩ rfl
  rw [replaceFirst, Replacement.runOn, visited]
  rfl

end Tree

end Replacing

/-! ## Identifiers after an edit -/

namespace Tree

variable {tree node : Tree} {padded : List (RightPadded Tree)}

/-! ### One node for another -/

theorem stamps_eq (tree : Tree) : tree.stamps = tree.id ::ₘ stampsOf tree.form.children := by
  obtain ⟨head, form⟩ := tree
  exact stamps_node head form

/-- The identifiers of what is replaced go, and those of the replacement come. -/
theorem stamps_substitute
    (distinct : tree.ids.Nodup)
    {owner : Tree}
    (member : owner ∈ tree.nodes)
    (replacement : Tree) :
    (tree.substitute owner.id replacement).stamps + owner.stamps = tree.stamps + replacement.stamps := by
  induction tree using Tree.induction with
  | step head form ih =>
      rw [substitute_node]
      split
      · next here =>
          obtain rfl : node head form = owner := eq_of_id_eq distinct member (mem_nodes_self _) here
          exact add_comm _ _
      · next elsewhere =>
          have below : owner.id ∈ form.children.flatMap ids := by
            have inside : owner.id ∈ (node head form).ids := List.mem_map_of_mem member
            rw [ids_node] at inside
            exact (List.mem_cons.1 inside).resolve_left (Ne.symm elsewhere)
          have each (child : Tree) (isChild : child ∈ form.children) (inside : owner.id ∈ child.ids) :
              (child.substitute owner.id replacement).stamps + owner.stamps = child.stamps + replacement.stamps := by
            apply ih child isChild (nodup_ids_of_mem_children distinct isChild)
            obtain ⟨found, isFound, same⟩ := List.mem_map.1 inside
            rwa [<- eq_of_id_eq distinct member (mem_nodes_of_mem_children isChild isFound) same]
          rw [ids_node] at distinct
          have exchanged := Stamp.ofAll_exchange (List.nodup_cons.1 distinct).2 below
            (fun child _ absent => substitute_of_notMem absent) each
          rw [stamps_eq, id_revise, form_revise, Form.children_map, stamps_node, Multiset.cons_add, exchanged,
            <- Multiset.cons_add]
          rfl

/-! ### One list for another -/

theorem nodup_ids_of_mem_nodes
    (distinct : tree.ids.Nodup)
    (member : node ∈ tree.nodes) :
    node.ids.Nodup := by
  induction tree using Tree.induction with
  | step head form ih =>
      rw [nodes_node] at member
      rcases List.mem_cons.1 member with rfl | below
      · exact distinct
      · obtain ⟨child, isChild, inside⟩ := List.mem_flatMap.1 below
        exact ih child isChild (nodup_ids_of_mem_children distinct isChild) inside

theorem id_sublist_ids (list : List Tree) : (list.map id).Sublist (list.flatMap ids) := by
  induction list with
  | nil => exact .refl _
  | cons first rest ih =>
      obtain ⟨head, form⟩ := first
      rw [List.map_cons, List.flatMap_cons, ids_node]
      exact (ih.trans (List.sublist_append_right _ _)).cons_cons head.id

/-- The elements of a list are children in a row, and another list takes their place among the same children. -/
theorem children_withPadded (isList : node.elements? = some padded) :
    exists before behind, node.form.children = before ++ (RightPadded.elements padded ++ behind) ∧
      forall list, (node.withPadded list).id = node.id ∧
        (node.withPadded list).form.children = before ++ (RightPadded.elements list ++ behind) := by
  unfold withPadded
  unfold elements? at isList
  split at isList
  all_goals cases isList
  · next form =>
      rw [form]
      refine ⟨[], [], by simp [Form.children], fun list => ⟨id_revise .., ?_⟩⟩
      simp [withForm, Form.children]
  · next form =>
      rw [form]
      refine ⟨[], [], by simp [Form.children], fun list => ⟨id_revise .., ?_⟩⟩
      simp [withForm, Form.children]
  · next receiver name arguments _ form =>
      rw [form]
      refine ⟨(receiver.map (·.element)).toList ++ [name], [], by simp [Form.children, Container.elements],
        fun list => ⟨id_revise .., ?_⟩⟩
      simp [withForm, Form.children, Container.elements]
  · next returnType name parameters body form =>
      rw [form]
      refine ⟨returnType.toList ++ [name], body.toList, by simp [Form.children, Container.elements],
        fun list => ⟨id_revise .., ?_⟩⟩
      simp [withForm, Form.children, Container.elements]
  · next form =>
      rw [form]
      refine ⟨[], [], by simp [Form.children, Container.elements], fun list => ⟨id_revise .., ?_⟩⟩
      simp [withForm, Form.children, Container.elements]

theorem nodup_elementIds
    (distinct : node.ids.Nodup)
    (isList : node.elements? = some padded) :
    (RightPadded.elementIds padded).Nodup := by
  obtain ⟨before, behind, whole, -⟩ := children_withPadded isList
  obtain ⟨head, form⟩ := node
  rw [ids_node] at distinct
  have inner : (RightPadded.elements padded).Sublist form.children := by
    change form.children = _ at whole
    rw [whole]
    exact (List.sublist_append_left _ behind).trans (List.sublist_append_right before _)
  exact (List.nodup_cons.1 distinct).2.sublist ((inner.map id).trans (id_sublist_ids _))

theorem stamps_withPadded
    (isList : node.elements? = some padded)
    (list : List (RightPadded Tree)) :
    (node.withPadded list).stamps + stampsOf (RightPadded.elements padded) =
      node.stamps + stampsOf (RightPadded.elements list) := by
  obtain ⟨before, behind, whole, others⟩ := children_withPadded isList
  obtain ⟨sameId, wholeOther⟩ := others list
  rw [stamps_eq, stamps_eq, sameId, wholeOther, whole]
  simp only [Stamp.ofAll_append, <- Multiset.singleton_add]
  abel

theorem stamps_withElements
    (distinct : node.ids.Nodup)
    (isList : node.elements? = some padded)
    (list : List Tree) :
    exists edited, node.withElements list = .ok edited ∧
      edited.stamps + stampsOf (RightPadded.elements padded) = node.stamps + stampsOf list := by
  refine ⟨node.withPadded (list.map (RightPadded.repad padded)), ?_, ?_⟩
  · rw [withElements, isList]
    change (RightPadded.withElements padded list >>= _) = _
    rw [RightPadded.withElements_of_nodup (nodup_elementIds distinct isList)]
    rfl
  · rw [stamps_withPadded isList, RightPadded.elements_map_repad]

theorem ids_withForm
    {form : Form Tree}
    (same : form.children = tree.form.children) :
    (tree.withForm form).ids = tree.ids := by
  rw [ids_eq, ids_eq, withForm, id_revise, form_revise, same]

theorem ids_rename
    (tree : Tree)
    (text : Text) :
    (tree.rename text).ids = tree.ids := by
  unfold rename
  split
  · next form => exact ids_withForm (by rw [form]; rfl)
  · next form => exact ids_withForm (by rw [form]; rfl)
  · next form => exact ids_withForm (by rw [form]; rfl)
  · next form =>
      split
      · rfl
      · exact ids_withForm (by rw [form]; rfl)
  · rfl

/-- In a tree with distinct identifiers an edit is done, and it exchanges the identifiers of the elements. -/
theorem stamps_edited
    (distinct : tree.ids.Nodup)
    (member : node ∈ tree.nodes)
    (isList : node.elements? = some padded)
    (list : List Tree) :
    exists edited, node.withElements list = .ok edited ∧
      (tree.replaceFirst node.id edited).stamps + stampsOf (RightPadded.elements padded) = tree.stamps + stampsOf list := by
  obtain ⟨edited, isDone, exchanged⟩ := stamps_withElements (nodup_ids_of_mem_nodes distinct member) isList list
  refine ⟨edited, isDone, (add_left_inj node.stamps).1 ?_⟩
  rw [replaceFirst_eq distinct, add_right_comm, stamps_substitute distinct member, add_assoc, exchanged, add_assoc,
    add_comm node.stamps]

end Tree

instance : ListLanguage Tree PaddingFrame where
  elements? := Tree.elements?
  withElements := Tree.withElements
  replaceFirst := Tree.replaceFirst

instance : LawfulListLanguage Tree where
  ids_withLeading := Tree.ids_withLeading
  ids_rename := Tree.ids_rename
  edits := Tree.stamps_edited
  settles := Tree.stamps_settle

end Java
end Lossless
