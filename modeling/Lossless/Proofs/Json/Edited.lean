import Lossless.Proofs.Json.Deletion

/-!
# Edits of data trees

Putting one node in place of another exchanges the identifiers below them. So an edit of a list exchanges those of its
elements, and it is done whenever the identifiers in the tree are distinct.
-/

namespace Lossless
namespace Json

namespace Tree

variable {tree node : Tree} {padded : List (RightPadded Tree)}

/-! ## One node for another -/

theorem ids_eq (tree : Tree) : tree.ids = tree.id :: tree.form.children.flatMap ids := by
  obtain ⟨head, form⟩ := tree
  exact ids_node head form

theorem stamps_eq (tree : Tree) : tree.stamps = tree.id ::ₘ stampsOf tree.form.children := by
  obtain ⟨head, form⟩ := tree
  exact stamps_node head form

/-- The identifiers of what is replaced go, and those of the replacement come. -/
theorem stamps_substitute
    (distinct : tree.ids.Nodup)
    {owner : Tree}
    (member : owner ∈ tree.nodes)
    (replacement : Tree) :
    (tree.substitute owner.id replacement).stamps + owner.stamps = tree.stamps + replacement.stamps := by
  induction tree using Tree.induction with
  | step head form ih =>
      rw [substitute_node]
      split
      · next here =>
          obtain rfl : node head form = owner := eq_of_id_eq distinct member (mem_nodes_self _) here
          exact add_comm _ _
      · next elsewhere =>
          have below : owner.id ∈ form.children.flatMap ids := by
            have inside : owner.id ∈ (node head form).ids := List.mem_map_of_mem member
            rw [ids_node] at inside
            exact (List.mem_cons.1 inside).resolve_left (Ne.symm elsewhere)
          have each (child : Tree) (isChild : child ∈ form.children) (inside : owner.id ∈ child.ids) :
              (child.substitute owner.id replacement).stamps + owner.stamps = child.stamps + replacement.stamps := by
            apply ih child isChild (nodup_ids_of_mem_children distinct isChild)
            obtain ⟨found, isFound, same⟩ := List.mem_map.1 inside
            rwa [<- eq_of_id_eq distinct member (mem_nodes_of_mem_children isChild isFound) same]
          rw [ids_node] at distinct
          have exchanged := Stamp.ofAll_exchange (List.nodup_cons.1 distinct).2 below
            (fun child _ absent => substitute_of_notMem absent) each
          rw [stamps_eq, id_revise, form_revise, Form.children_map, stamps_node, Multiset.cons_add, exchanged,
            <- Multiset.cons_add]
          rfl

/-! ## One list for another -/

theorem stamps_withForm
    (isList : node.elements? = some padded)
    {form : Form Tree}
    {list : List (RightPadded Tree)}
    (children : form.children = RightPadded.elements list) :
    (node.withForm form).stamps + stampsOf (RightPadded.elements padded) =
      node.stamps + stampsOf (RightPadded.elements list) := by
  have inPlace : node.form.children = RightPadded.elements padded := children_of_elements? isList
  rw [stamps_eq, stamps_eq, withForm, id_revise, form_revise, children, inPlace]
  simp only [<- Multiset.singleton_add]
  abel

theorem stamps_withElements
    (distinct : node.ids.Nodup)
    (isList : node.elements? = some padded)
    (list : List Tree) :
    exists edited, node.withElements list = .ok edited ∧
      edited.stamps + stampsOf (RightPadded.elements padded) = node.stamps + stampsOf list := by
  have isDone := RightPadded.withElements_of_nodup (nodup_elementIds distinct isList) list
  have sameElements := RightPadded.elements_map_repad padded list
  rcases form_of_elements? isList with form | form
  · exact ⟨node.withForm (.object (list.map (RightPadded.repad padded))), withElements_of_object form isDone,
      (stamps_withForm isList rfl).trans (by rw [sameElements])⟩
  · exact ⟨node.withForm (.array (list.map (RightPadded.repad padded))), withElements_of_array form isDone,
      (stamps_withForm isList rfl).trans (by rw [sameElements])⟩

theorem ids_withLeading
    (tree : Tree)
    (leading : Space) :
    (tree.withLeading leading).ids = tree.ids := by
  rw [ids_eq, ids_eq, withLeading, id_revise, form_revise]

theorem ids_rename
    (tree : Tree)
    (text : Text) :
    (tree.rename text).ids = tree.ids := by
  unfold rename
  split
  · next form =>
      rw [ids_eq, ids_eq, withForm, id_revise, form_revise, form]
      rfl
  · next form =>
      unfold withScalar
      split
      · split
        · rfl
        · rw [ids_eq, ids_eq, form]
          rfl
      · rfl
  · rfl

/-- In a tree with distinct identifiers an edit is done, and it exchanges the identifiers of the elements. -/
theorem stamps_edited
    (distinct : tree.ids.Nodup)
    (member : node ∈ tree.nodes)
    (isList : node.elements? = some padded)
    (list : List Tree) :
    exists edited, node.withElements list = .ok edited ∧
      (tree.replaceFirst node.id edited).stamps + stampsOf (RightPadded.elements padded) = tree.stamps + stampsOf list := by
  obtain ⟨edited, isDone, exchanged⟩ := stamps_withElements (nodup_ids_of_mem_nodes distinct member) isList list
  refine ⟨edited, isDone, (add_left_inj node.stamps).1 ?_⟩
  rw [replaceFirst_eq distinct, add_right_comm, stamps_substitute distinct member, add_assoc, exchanged, add_assoc,
    add_comm node.stamps]

end Tree

instance : ListLanguage Tree PaddingFrame where
  elements? := Tree.elements?
  withElements := Tree.withElements
  replaceFirst := Tree.replaceFirst

instance : LawfulListLanguage Tree where
  ids_withLeading := Tree.ids_withLeading
  ids_rename := Tree.ids_rename
  edits := Tree.stamps_edited
  settles := Tree.stamps_settle

end Json
end Lossless
