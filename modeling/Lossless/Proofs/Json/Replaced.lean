import Lossless.Json.Language
import Lossless.Proofs.Editing
import Lossless.Proofs.Json.Copies
import Lossless.Proofs.Json.Renaming
import Mathlib.Data.List.Nodup

/-!
# One node in place of another

`Tree.substitute` puts a tree in the place of the nodes with an identifier. Where identifiers are distinct that is
one node, and the visitor that replaces a node does just that. A canonical document stays canonical when a list takes
the place of a list.
-/

namespace Lossless
namespace Json

open VisitM

variable {target : Stamp} {replacement : Tree}

namespace Tree

/-- The tree with another one in place of the nodes with an identifier; nodes without such nodes below stay the same cells. -/
def substitute
    (tree : Tree)
    (target : Stamp)
    (replacement : Tree) : Tree :=
  recurse
    (fun head form =>
      if head.id = target then replacement
      else (node head (form.map Prod.fst)).revise head.leading head.markers (form.map Prod.snd))
    tree

theorem substitute_node
    (head : Head)
    (form : Form Tree) :
    (node head form).substitute target replacement =
      if head.id = target then replacement
      else (node head form).revise head.leading head.markers (form.map (·.substitute target replacement)) := by
  have back : form.map (fun child : Tree => child) = form := (Form.map_eq_self_iff _ form).2 fun _ _ => rfl
  rw [substitute, recurse_node, Form.map_map, Form.map_map]
  simp only [withValue, back]
  rfl

/-- A tree without the identifier stays as it is. -/
theorem substitute_of_notMem
    {tree : Tree}
    (absent : target ∉ tree.ids) :
    tree.substitute target replacement = tree := by
  induction tree using Tree.induction with
  | step head form ih =>
      rw [ids_node, List.mem_cons, List.mem_flatMap, not_or] at absent
      have children : form.map (·.substitute target replacement) = form := by
        apply (Form.map_eq_self_iff _ form).2
        intro child member
        exact ih child member fun inside => absent.2 ⟨child, member, inside⟩
      rw [substitute_node, if_neg (Ne.symm absent.1), children]
      exact revise_self (node head form)

end Tree

/-! ## The visitor -/

/-- A node that is not replaced itself is revised with its changed children. -/
theorem Tree.appliedTo_node
    {own : Replacement Tree}
    {head : Head}
    {form : Form Tree}
    (elsewhere : forall pair, own = some pair -> head.id ≠ pair.1) :
    Replacement.appliedTo substitute own (node head form) =
      (node head form).revise head.leading head.markers (form.map (Replacement.appliedTo substitute own)) := by
  cases own with
  | none =>
      have same : form.map (Replacement.appliedTo substitute none) = form := (Form.map_eq_self_iff _ form).2 fun _ _ => rfl
      rw [same]
      exact (revise_self (node head form)).symm
  | some pair => exact (substitute_node head form).trans (if_neg (elsewhere pair rfl))

section Walk

variable {visit : Tree -> TreeVisit (Replacement Tree) Unit (Option Tree)}
variable {change : Tree -> Tree} {own moved : Replacement Tree}

theorem space_answers (space : Space) : (replaceVisitor.space space).Answers space := .pure _

theorem marker_answers (marker : Marker Space) : (replaceVisitor.marker marker).Answers marker := .pure _

theorem rightPadded_moves
    {padded : RightPadded Tree}
    (child : (visit padded.element).Moves own moved (some (change padded.element))) :
    (replaceVisitor.rightPadded visit padded).Moves own moved (some (padded.map change)) :=
  .bind (.within child _) <| .bind ((space_answers _).moves _) <|
    .bind ((Answers.markers marker_answers _).moves _) ((Answers.pure _).moves _)

theorem rightPaddedList_moves
    {list : List (RightPadded Tree)}
    (children : Proceeds visit change own (RightPadded.elements list) moved) :
    (replaceVisitor.rightPaddedList visit list).Moves own moved (list.map (·.map change)) := by
  induction list generalizing own with
  | nil =>
      cases children
      exact (Answers.pure _).moves _
  | cons first rest ih =>
      obtain ⟨middle, here, later⟩ := children.of_cons
      exact .bind (rightPadded_moves here) (.bind (ih later) ((Answers.pure _).moves _))

/-- A form is left with its children changed, and the state is what they make of it in source order. -/
theorem visitForm_moves
    {form : Form Tree}
    (children : Proceeds visit change own form.children moved) :
    (replaceVisitor.visitForm visit form).Moves own moved (some (form.map change)) := by
  cases form with
  | document source value eof =>
      exact .bind children.of_singleton (.bind ((space_answers eof).moves _) ((Answers.pure _).moves _))
  | object members => exact .bind (rightPaddedList_moves children) ((Answers.pure _).moves _)
  | member key value =>
      obtain ⟨_, atKey, atValue⟩ := children.of_cons
      exact .bind (rightPadded_moves atKey) (.bind atValue.of_singleton ((Answers.pure _).moves _))
  | array values => exact .bind (rightPaddedList_moves children) ((Answers.pure _).moves _)
  | literal source value =>
      cases children
      exact (Answers.pure _).moves _
  | identifier name =>
      cases children
      exact (Answers.pure _).moves _
  | empty =>
      cases children
      exact (Answers.pure _).moves _

/-- A node is left with its children changed, and the state is what they make of it in source order. -/
theorem descend_moves
    {tree : Tree}
    (children : Proceeds visit change own tree.children moved) :
    (replaceVisitor.descend visit tree).Moves own moved
      (some (tree.revise tree.leading tree.markers (tree.form.map change))) :=
  .bind ((space_answers _).moves _) <| .bind ((Answers.markers marker_answers _).moves _) <|
    .bind (visitForm_moves children) ((Answers.pure _).moves _)

end Walk

theorem replaceVisitor_isPlain : replaceVisitor.traversal.IsPlain :=
  ⟨fun _ => .pure _, fun _ => .pure _, fun _ => .pure _, fun _ => .pure _⟩

/-- The dispatch at a node replaces the node, or goes on to its children. -/
theorem replaceVisitor_moves
    {visit : Tree -> TreeVisit (Replacement Tree) Unit (Option Tree)}
    {tree : Tree}
    (distinct : tree.ids.Nodup)
    (children : forall child, child ∈ tree.children -> forall own,
      (visit child).Moves own (Replacement.behind own child.ids) (some (Replacement.appliedTo Tree.substitute own child)))
    (own : Replacement Tree) :
    (replaceVisitor.traversal.dispatch visit tree).Moves own (Replacement.behind own tree.ids)
      (some (Replacement.appliedTo Tree.substitute own tree)) := by
  obtain ⟨head, form⟩ := tree
  rw [Tree.ids_node] at distinct ⊢
  have replaces (replacement : Tree) : (Tree.node head form).substitute head.id replacement = replacement := by
    rw [Tree.substitute_node, if_pos rfl]
  refine Replacement.dispatch_moves replaces (fun own elsewhere => ?_) own
  have revised : Replacement.appliedTo Tree.substitute own (.node head form) = _ := Tree.appliedTo_node elsewhere
  rw [revised]
  apply descend_moves
  exact Replacement.proceeds (fun _ _ _ => Tree.substitute_of_notMem) children (List.nodup_cons.1 distinct).2 own

theorem nodup_ids_of_mem_children
    {tree child : Tree}
    (distinct : tree.ids.Nodup)
    (member : child ∈ tree.children) :
    child.ids.Nodup := by
  obtain ⟨head, form⟩ := tree
  rw [Tree.ids_node] at distinct
  exact (List.nodup_flatMap.1 (List.nodup_cons.1 distinct).2).1 child member

/-- In a tree with distinct identifiers the visitor replaces the one node with the identifier. -/
theorem Tree.replaceFirst_eq
    {tree : Tree}
    (distinct : tree.ids.Nodup)
    (target : Stamp)
    (replacement : Tree) :
    tree.replaceFirst target replacement = tree.substitute target replacement := by
  have moves := replaceVisitor_isPlain.visit_moves (Replacement.appliedTo substitute)
    (fun own tree => Replacement.behind own tree.ids) children height
    (fun tree child member => by obtain ⟨head, form⟩ := tree; exact height_lt_of_mem_children member)
    (fun _ _ => Nat.le_refl _) (fun tree => tree.ids.Nodup) (fun _ _ => nodup_ids_of_mem_children)
    (fun _ _ distinct children => replaceVisitor_moves distinct children) tree distinct (some (target, replacement))
  have visited : (replaceVisitor.run tree).runFrom (.start .root .never (some (target, replacement)) ()) = _ :=
    moves (.start .root .never (some (target, replacement)) ()) ⟨rfl, rfl⟩ rfl
  rw [replaceFirst, Replacement.runOn, visited]
  rfl

/-! ## Canonical trees -/

namespace Tree

@[simp] theorem leading_revise
    (tree : Tree)
    (leading : Space)
    (markers : Markers Space)
    (form : Form Tree) :
    (tree.revise leading markers form).leading = leading := by
  unfold revise
  split
  · next same => exact same.1.symm
  · rfl

@[simp] theorem markers_revise
    (tree : Tree)
    (leading : Space)
    (markers : Markers Space)
    (form : Form Tree) :
    (tree.revise leading markers form).markers = markers := by
  unfold revise
  split
  · next same => exact same.2.1.symm
  · rfl

/-- A tree that can stand where another one stands: it has the space and the markers of the other, and fits there. -/
structure StandsFor (tree other : Tree) : Prop where
  leading : tree.leading = other.leading
  markers : tree.markers = other.markers
  isValue : tree.form.isValue = other.form.isValue
  isMember : tree.form.isMember = other.form.isMember
  isKey : tree.form.isKey = other.form.isKey
  isEmpty : other.form = .empty -> tree.form = .empty

end Tree

namespace Form

variable {change : Tree -> Tree} {form : Form Tree}

@[simp] theorem isValue_map (change : α -> β) (form : Form α) : (form.map change).isValue = form.isValue := by
  cases form <;> rfl

@[simp] theorem isMember_map (change : α -> β) (form : Form α) : (form.map change).isMember = form.isMember := by
  cases form <;> rfl

@[simp] theorem isKey_map (change : α -> β) (form : Form α) : (form.map change).isKey = form.isKey := by
  cases form with
  | literal source value => cases value <;> rfl
  | _ => rfl

@[simp] theorem gaps_map (change : α -> β) (form : Form α) : (form.map change).gaps = form.gaps := by
  cases form <;> simp [map, gaps]

@[simp] theorem eof?_map (change : α -> β) (form : Form α) : (form.map change).eof? = form.eof? := by
  cases form <;> rfl

theorem fitElements_map
    {test : Form Tree -> Bool}
    {list : List (RightPadded Tree)}
    (fits : FitElements test list)
    (sameKind : forall child, child ∈ RightPadded.elements list -> test (change child).form = test child.form)
    (sameEmpty : forall child, child ∈ RightPadded.elements list -> child.form = .empty -> (change child).form = .empty) :
    FitElements test (list.map (·.map change)) := by
  have isElement {padded : RightPadded Tree} (member : padded ∈ list) : padded.element ∈ RightPadded.elements list :=
    List.mem_map_of_mem member
  refine ⟨by simpa using fits.nonempty, List.forall_mem_map.2 ?_, ?_⟩
  · intro padded member
    obtain ⟨unmarked, kind⟩ := fits.each padded member
    refine ⟨unmarked, kind.imp ?_ ?_⟩
    · exact (sameKind _ (isElement member)).trans
    · exact And.imp_left (sameEmpty _ (isElement member))
  · rw [<- List.map_dropLast]
    refine List.forall_mem_map.2 fun padded member => ?_
    exact (sameKind _ (isElement (List.dropLast_subset _ member))).trans (fits.inner padded member)

/-- Children that stand for the children of a canonical form make a canonical form. -/
theorem IsCanonical.map
    (canonical : form.IsCanonical)
    (children : forall child, child ∈ form.children -> (change child).StandsFor child) :
    (form.map change).IsCanonical := by
  obtain ⟨fits, gaps, eof, leading, unmarked⟩ := canonical
  refine ⟨?_, by rwa [gaps_map], by rwa [eof?_map], ?_, ?_⟩
  · cases form with
    | document source value eof => exact ((children value List.mem_cons_self).isValue).trans fits
    | object members =>
        exact fitElements_map fits (fun child member => (children child member).isMember)
          fun child member => (children child member).isEmpty
    | member key value =>
        obtain ⟨keyUnmarked, isKey, isEmpty, isValue⟩ := fits
        have atKey := children key.element List.mem_cons_self
        have atValue := children value (List.mem_cons_of_mem _ (List.mem_singleton_self _))
        refine ⟨keyUnmarked, atKey.isKey.trans isKey, ?_, atValue.isValue.trans isValue⟩
        rw [RightPadded.element_map, atKey.leading]
        exact isEmpty
    | array values =>
        exact fitElements_map fits (fun child member => (children child member).isValue)
          fun child member => (children child member).isEmpty
    | literal source value => exact fits
    | identifier name => exact fits
    | empty => trivial
  · rw [children_map, List.forall_mem_map]
    intro child member
    rw [(children child member).leading]
    exact leading child member
  · rw [children_map, List.forall_mem_map]
    intro child member
    rw [(children child member).markers]
    exact unmarked child member

end Form

namespace Tree

variable {tree : Tree}

/-- A tree in which a replacement stands for what it replaces stands for the tree itself. -/
theorem substitute_standsFor
    (stands : tree.id = target -> replacement.StandsFor tree) :
    (tree.substitute target replacement).StandsFor tree := by
  obtain ⟨head, form⟩ := tree
  rw [substitute_node]
  split
  · next here => exact stands here
  · refine ⟨leading_revise .., markers_revise .., ?_, ?_, ?_, ?_⟩
    · rw [form_revise, Form.isValue_map, form_node]
    · rw [form_revise, Form.isMember_map, form_node]
    · rw [form_revise, Form.isKey_map, form_node]
    · rintro rfl
      rw [form_revise]
      rfl

theorem mem_nodes_self (tree : Tree) : tree ∈ tree.nodes := List.mem_cons_self

theorem mem_nodes_of_mem_children
    {child node : Tree}
    (member : child ∈ tree.form.children)
    (inside : node ∈ child.nodes) :
    node ∈ tree.nodes := by
  obtain ⟨head, form⟩ := tree
  rw [nodes_node]
  exact List.mem_cons_of_mem _ (List.mem_flatMap.2 ⟨child, member, inside⟩)

theorem mem_nodes_trans
    {inner outer : Tree}
    (outside : outer ∈ tree.nodes)
    (inside : inner ∈ outer.nodes) :
    inner ∈ tree.nodes := by
  induction tree using Tree.induction with
  | step head form ih =>
      rw [nodes_node] at outside
      rcases List.mem_cons.1 outside with rfl | below
      · exact inside
      · obtain ⟨child, isChild, deeper⟩ := List.mem_flatMap.1 below
        exact mem_nodes_of_mem_children isChild (ih child isChild deeper)

/-- A canonical tree stays canonical when what is put into it can stand there. -/
theorem IsCanonical.substitute
    (canonical : tree.IsCanonical)
    (replacementCanonical : replacement.IsCanonical)
    (stands : forall node, node ∈ tree.nodes -> node.id = target -> replacement.StandsFor node) :
    (tree.substitute target replacement).IsCanonical := by
  induction tree using Tree.induction with
  | step head form ih =>
      rw [substitute_node]
      split
      · exact replacementCanonical
      · have below {child node : Tree} (member : child ∈ form.children) (inside : node ∈ child.nodes) :
            node.id = target -> replacement.StandsFor node :=
          stands node (mem_nodes_of_mem_children member inside)
        rw [isCanonical_iff, form_revise, Form.children_map, List.forall_mem_map]
        constructor
        · exact canonical.root.map fun child member => substitute_standsFor (below member (mem_nodes_self child))
        · exact fun child member => ih child member (canonical.part member).canonical fun node inside => below member inside

/-- A replacement stands in the tree in the place of what it replaces. -/
theorem mem_nodes_substitute
    {node : Tree}
    (member : node ∈ tree.nodes)
    (replaced : node.id = target) :
    replacement ∈ (tree.substitute target replacement).nodes := by
  induction tree using Tree.induction with
  | step head form ih =>
      rw [substitute_node]
      split
      · exact mem_nodes_self replacement
      · next elsewhere =>
          rw [nodes_node] at member
          rcases List.mem_cons.1 member with rfl | below
          · exact absurd replaced elsewhere
          · obtain ⟨child, isChild, inside⟩ := List.mem_flatMap.1 below
            refine mem_nodes_of_mem_children ?_ (ih child isChild inside)
            rw [form_revise, Form.children_map]
            exact List.mem_map_of_mem isChild

/-- A document that can be read stays one when what is put into it below the root can stand there. -/
theorem IsDocumentOf.substitute
    {path : Path}
    (isDocument : tree.IsDocumentOf path)
    (belowRoot : tree.id ≠ target)
    (replacementCanonical : replacement.IsCanonical)
    (stands : forall node, node ∈ tree.nodes -> node.id = target -> replacement.StandsFor node) :
    (tree.substitute target replacement).IsDocumentOf path := by
  obtain ⟨⟨value, eof, form⟩, isEmpty, unmarked, canonical⟩ := isDocument
  have root : (tree.substitute target replacement).StandsFor tree :=
    substitute_standsFor fun here => absurd here belowRoot
  refine ⟨?_, by rwa [root.leading], by rwa [root.markers], canonical.substitute replacementCanonical stands⟩
  obtain ⟨head, _⟩ := tree
  obtain rfl := form
  have elsewhere : head.id ≠ target := belowRoot
  rw [substitute_node, if_neg elsewhere, form_revise]
  exact ⟨_, _, rfl⟩

end Tree

end Json
end Lossless
