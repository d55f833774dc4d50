import Lossless.Java.Grammar.Expression
import Lossless.Java.Node
import Lossless.Proofs.Drawn
import Lossless.Proofs.Gap.Reading
import Mathlib.Data.List.Nodup

/-!
# Identity and content of syntax trees

A tree without what tells its cells apart: every node, space and marker is renewed, as if it had just been
built. Two trees with the same renewed tree differ in identity alone.

The identifiers of a tree are those of its nodes in source order. Where they are distinct, a node is known by its
own, and what holds of the tree holds of every node in it.

A parsed tree has no identifiers yet. Numbering gives each of its nodes one of its own.
-/

namespace Lossless
namespace Java

/-! ## Renewed trees -/

namespace Form

/-- The form with new spaces and markers, and with renewed children. -/
def renewed (child : α -> β) : Form α -> Form β
  | compilationUnit dialect source statements eof =>
      .compilationUnit dialect source (statements.map (·.renewed child)) eof.renewed
  | block statements closing => .block (statements.map (·.renewed child)) closing.renewed
  | conditional condition consequence alternative =>
      .conditional (child condition) (consequence.renewed child) (alternative.map child)
  | otherwise body => .otherwise (body.renewed child)
  | returns value => .returns (value.map child)
  | assignment target value typeTag =>
      .assignment (child target) (value.renewed child) typeTag
  | binary left operator right typeTag =>
      .binary (child left) (operator.renewed id) (child right) typeTag
  | identifier name typeTag => .identifier name typeTag
  | literal source typeTag => .literal source typeTag
  | fieldAccess target name typeTag =>
      .fieldAccess (child target) (name.renewed child) typeTag
  | call receiver name arguments typeTag =>
      .call (receiver.map (·.renewed child)) (child name) (arguments.renewed child) typeTag
  | declaration returnType name parameters body =>
      .declaration (returnType.map child) (child name) (parameters.renewed child) (body.map child)
  | parentheses inner => .parentheses (inner.renewed child)
  | collection kind elements typeTag => .collection kind (elements.renewed child) typeTag
  | empty => .empty
  | unknown text => .unknown text

theorem renewed_map
    (child : β -> γ)
    (change : α -> β)
    (form : Form α) :
    (form.map change).renewed child = form.renewed fun element => child (change element) := by
  cases form with
  | call receiver name arguments typeTag =>
      cases receiver <;>
        simp [map, renewed, Container.renewed, RightPadded.renewed, Function.comp_def]
  | _ =>
      simp [map, renewed, Container.renewed, RightPadded.renewed, LeftPadded.renewed,
        Function.comp_def]

end Form

namespace Tree

/-- The same tree as a new one: the same syntax, spaces and markers, in nodes without an identity. -/
def renewed (tree : Tree) : Tree :=
  recurse
    (fun head form =>
      .node ⟨.pending, .pending, head.leading.renewed, head.markers.renewed⟩
        (form.renewed Prod.snd))
    tree

theorem renewed_node
    (head : Head)
    (form : Form Tree) :
    (node head form).renewed =
      .node ⟨.pending, .pending, head.leading.renewed, head.markers.renewed⟩
        (form.renewed renewed) := by
  rw [renewed, recurse_node, Form.renewed_map]
  rfl

/-- A tree as a new one after another space. -/
def placed
    (leading : Space)
    (tree : Tree) : Tree :=
  .spaced leading (tree.form.renewed renewed)

/-- A tree without markers is placed after its own space. -/
theorem renewed_eq_placed
    {tree : Tree}
    (unmarked : tree.markers.toList = []) :
    tree.renewed = tree.placed tree.leading.renewed := by
  obtain ⟨head, form⟩ := tree
  have noMarkers : head.markers.renewed = .empty := Markers.renewed_of_toList unmarked
  rw [renewed_node, noMarkers]
  rfl

theorem renewed_eq_placed_empty
    {tree : Tree}
    (unmarked : tree.markers.toList = [])
    (isEmpty : tree.leading.isEmpty = true) :
    tree.renewed = tree.placed .empty := by
  rw [renewed_eq_placed unmarked, Space.renewed_of_isEmpty isEmpty]

/-- A new node that starts with a new node takes over the space before it. -/
theorem leadingFrom_spaced
    (leading : Space)
    (first : Form Tree)
    (form : Tree -> Form Tree) :
    (spaced leading first).leadingFrom form = spaced leading (form (spaced .empty first)) := by
  have moved : (spaced leading first).withLeading .empty = spaced .empty first := by
    unfold withLeading revise
    split
    · next same =>
        obtain rfl : Space.empty = leading := same.1
        rfl
    · rfl
  rw [leadingFrom, moved]
  rfl

end Tree

/-! ## Identifiers -/

namespace Tree

variable {tree node : Tree}

/-- The identifiers of the nodes of a tree. -/
def ids (tree : Tree) : List Stamp :=
  tree.nodes.map id

theorem ids_node
    (head : Head)
    (form : Form Tree) :
    (Tree.node head form).ids = head.id :: form.children.flatMap ids := by
  rw [ids, nodes_node, List.map_cons, List.map_flatMap]
  rfl

theorem ids_eq (tree : Tree) : tree.ids = tree.id :: tree.form.children.flatMap ids := by
  obtain ⟨head, form⟩ := tree
  exact ids_node head form

@[simp] theorem ids_withLeading
    (tree : Tree)
    (leading : Space) :
    (tree.withLeading leading).ids = tree.ids := by
  rw [ids_eq, ids_eq, withLeading, id_revise, form_revise]

theorem mem_nodes_self (tree : Tree) : tree ∈ tree.nodes := List.mem_cons_self

theorem mem_nodes_of_mem_children
    {child : Tree}
    (member : child ∈ tree.form.children)
    (inside : node ∈ child.nodes) :
    node ∈ tree.nodes := by
  obtain ⟨head, form⟩ := tree
  rw [nodes_node]
  exact List.mem_cons_of_mem _ (List.mem_flatMap.2 ⟨child, member, inside⟩)

theorem eq_or_exists_of_mem_nodes (member : node ∈ tree.nodes) :
    node = tree ∨ ∃ child, child ∈ tree.form.children ∧ node ∈ child.nodes := by
  obtain ⟨head, form⟩ := tree
  rwa [nodes_node, List.mem_cons, List.mem_flatMap] at member

theorem mem_nodes_trans
    {owner : Tree}
    (member : owner ∈ tree.nodes)
    (inside : node ∈ owner.nodes) :
    node ∈ tree.nodes := by
  induction tree using Tree.induction with
  | step head form ih =>
      rw [nodes_node, List.mem_cons, List.mem_flatMap] at member
      rcases member with rfl | ⟨child, isChild, below⟩
      · exact inside
      · exact mem_nodes_of_mem_children isChild (ih child isChild below)

theorem exists_child_of_mem_nodes
    {owner child : Tree}
    (member : owner ∈ tree.nodes)
    (isChild : child ∈ owner.form.children) :
    ∃ first, first ∈ tree.form.children ∧ child ∈ first.nodes := by
  rcases eq_or_exists_of_mem_nodes member with rfl | ⟨first, isFirst, below⟩
  · exact ⟨child, isChild, mem_nodes_self child⟩
  · exact ⟨first, isFirst, mem_nodes_trans below (mem_nodes_of_mem_children isChild (mem_nodes_self child))⟩

/-- In a tree with distinct identifiers a node is known by its own. -/
theorem eq_of_id_eq
    (distinct : tree.ids.Nodup)
    {other : Tree}
    (member : node ∈ tree.nodes)
    (otherMember : other ∈ tree.nodes)
    (same : other.id = node.id) :
    other = node :=
  List.inj_on_of_nodup_map distinct otherMember member same

end Tree

/-! ## Numbering -/

variable {α β γ : Type}

namespace Form

theorem mapM_settle_map
    (change : α -> β)
    (settleChild : β -> Numbering γ)
    (list : List (RightPadded α)) :
    (list.map (·.map change)).mapM (RightPadded.settle settleChild) =
      list.mapM (RightPadded.settle fun child => settleChild (change child)) := by
  rw [List.mapM_map]
  rfl

theorem settleOption_map
    (change : α -> β)
    (settleChild : β -> Numbering γ)
    (child : Option α) :
    settleOption settleChild (child.map change) = settleOption (fun child => settleChild (change child)) child := by
  cases child <;> rfl

/-- A form is numbered as its children are. -/
theorem settle_map
    (change : α -> β)
    (settleChild : β -> Numbering γ)
    (form : Form α) :
    (form.map change).settle settleChild = form.settle fun child => settleChild (change child) := by
  cases form with
  | call receiver =>
      cases receiver <;>
        simp only [map, settle, Container.map, Container.settle, mapM_settle_map] <;> rfl
  | _ =>
      simp only [map, settle, Container.map, Container.settle, mapM_settle_map, settleOption_map] <;> rfl

end Form

theorem Tree.settle_node
    (head : Head)
    (form : Form Tree) :
    (node head form).settle = do return .node (<- head.settle) (<- form.settle settle) := by
  rw [settle, recurse_node, Form.settle_map]
  rfl

/-! ### Distinct identifiers -/

/-- The identifiers of the nodes of a tree, each as often as it is there. -/
def Tree.stamps (tree : Tree) : Multiset Stamp := tree.ids

/-- The identifiers of the nodes of some trees, each as often as it is there. -/
abbrev stampsOf (list : List Tree) : Multiset Stamp := Stamp.ofAll Tree.stamps list

theorem Tree.stamps_node
    (head : Head)
    (form : Form Tree) :
    (Tree.node head form).stamps = head.id ::ₘ stampsOf form.children := by
  rw [stamps, ids_node, <- Multiset.cons_coe, Stamp.coe_flatMap]
  rfl

open Lossless.Numbering

section Children

variable {known : Tree -> Multiset Stamp} {settleChild : Tree -> Numbering Tree}

theorem draws_operand
    {padded : LeftPadded Tree}
    (child : Draws (known padded.element) (settleChild padded.element) Tree.stamps) :
    Draws (known padded.element) (padded.settle settleChild) fun padded => padded.element.stamps :=
  .skip (climbs_space _) fun _ =>
    .bind child (fun _ => .skip (climbs_markers climbs_space _) fun _ => .pure (by simp)) (add_zero _).le

theorem climbs_operator (padded : LeftPadded Operator) : Climbs (padded.settle pure) :=
  .bind (climbs_space _) fun _ => .bind (.pure _) fun _ => .bind (climbs_markers climbs_space _) fun _ => .pure _

theorem draws_container
    {list : Container Tree}
    (children : forall child, child ∈ list.elements -> Draws (known child) (settleChild child) Tree.stamps) :
    Draws (Stamp.ofAll known list.elements) (list.settle settleChild) fun list => stampsOf list.elements :=
  .skip (climbs_space _) fun _ => .bind (draws_list children)
    (fun _ => .skip (climbs_markers climbs_space _) fun _ => .pure (by simp [Container.elements])) (add_zero _).le

theorem draws_option
    {child : Option Tree}
    (children : forall present, present ∈ child.toList ->
      Draws (known present) (settleChild present) Tree.stamps) :
    Draws (Stamp.ofAll known child.toList) (Form.settleOption settleChild child) fun child => stampsOf child.toList := by
  cases child with
  | none => exact .pure le_rfl
  | some child => exact .bind (children child (List.mem_singleton_self _)) (fun _ => .pure (by simp)) le_rfl

theorem draws_receiver
    {receiver : Option (RightPadded Tree)}
    (children : forall present, present ∈ (receiver.map (·.element)).toList ->
      Draws (known present) (settleChild present) Tree.stamps) :
    Draws (Stamp.ofAll known (receiver.map (·.element)).toList) (Form.settleOption (RightPadded.settle settleChild) receiver)
      fun receiver => stampsOf (receiver.map (·.element)).toList := by
  cases receiver with
  | none => exact .pure le_rfl
  | some receiver =>
      exact .bind (draws_padded (children _ (List.mem_singleton_self _))) (fun _ => .pure (by simp)) le_rfl

theorem draws_form
    {form : Form Tree}
    (children : forall child, child ∈ form.children -> Draws (known child) (settleChild child) Tree.stamps) :
    Draws (Stamp.ofAll known form.children) (form.settle settleChild) fun form => stampsOf form.children := by
  cases form with
  | compilationUnit dialect source statements eof =>
      exact .bind (draws_list children) (fun _ => .skip (climbs_space _) fun _ => .pure (by simp [Form.children])) (add_zero _).le
  | block statements closing =>
      exact .bind (draws_list children) (fun _ => .skip (climbs_space _) fun _ => .pure (by simp [Form.children])) (add_zero _).le
  | conditional condition consequence alternative =>
      simp only [Form.children, List.forall_mem_cons, Stamp.ofAll_cons] at children ⊢
      obtain ⟨atCondition, atConsequence, atAlternative⟩ := children
      refine .bind atCondition (fun _ => .bind (draws_padded atConsequence)
        (fun _ => .bind (draws_option atAlternative) (fun _ => .pure ?_) (add_zero _).le) le_rfl) le_rfl
      simp
  | otherwise body =>
      refine .bind (draws_padded (children _ (List.mem_singleton_self _))) (fun _ => .pure ?_) le_rfl
      simp [Form.children]
  | returns value => exact .bind (draws_option children) (fun _ => .pure (by simp [Form.children])) (add_zero _).le
  | assignment target value typeTag =>
      simp only [Form.children, List.forall_mem_cons, Stamp.ofAll_cons] at children ⊢
      refine .bind children.1 (fun _ => .bind (draws_operand children.2.1) (fun _ => .pure ?_) le_rfl) le_rfl
      simp
  | binary left operator right typeTag =>
      simp only [Form.children, List.forall_mem_cons, Stamp.ofAll_cons] at children ⊢
      refine .bind children.1 (fun _ => .skip (climbs_operator _) fun _ =>
        .bind children.2.1 (fun _ => .pure ?_) le_rfl) le_rfl
      simp
  | identifier name typeTag => exact .pure le_rfl
  | literal source typeTag => exact .pure le_rfl
  | fieldAccess target name typeTag =>
      simp only [Form.children, List.forall_mem_cons, Stamp.ofAll_cons] at children ⊢
      refine .bind children.1 (fun _ => .bind (draws_operand children.2.1) (fun _ => .pure ?_) le_rfl) le_rfl
      simp
  | call receiver name arguments typeTag =>
      simp only [Form.children, List.forall_mem_append, List.forall_mem_cons, Stamp.ofAll_append,
        Stamp.ofAll_cons] at children ⊢
      obtain ⟨atReceiver, atName, atArguments⟩ := children
      refine .bind (draws_receiver atReceiver) (fun _ => .bind atName
        (fun _ => .bind (draws_container atArguments) (fun _ => .pure ?_) (add_zero _).le) le_rfl) le_rfl
      simp
  | declaration returnType name parameters body =>
      simp only [Form.children, List.forall_mem_append, List.forall_mem_cons, Stamp.ofAll_append,
        Stamp.ofAll_cons, add_assoc] at children ⊢
      obtain ⟨⟨atReturnType, atName, atParameters⟩, atBody⟩ := children
      refine .bind (draws_option atReturnType) (fun _ => .bind atName (fun _ => .bind (draws_container atParameters)
        (fun _ => .bind (draws_option atBody) (fun _ => .pure ?_) (add_zero _).le) le_rfl) le_rfl) le_rfl
      simp
  | parentheses inner =>
      refine .bind (draws_padded (children _ (List.mem_singleton_self _))) (fun _ => .pure ?_) le_rfl
      simp [Form.children]
  | collection kind list typeTag =>
      exact .bind (draws_container children) (fun _ => .pure (by simp [Form.children])) (add_zero _).le
  | empty => exact .pure le_rfl
  | unknown text => exact .pure le_rfl

end Children

/-- The nodes of a tree keep the identifiers that they were given, and the others are drawn. -/
theorem draws_tree (tree : Tree) : Draws (Stamp.given tree.stamps) tree.settle Tree.stamps := by
  induction tree using Tree.induction with
  | step head form ih =>
      rw [Tree.settle_node, Tree.stamps_node, <- Multiset.singleton_add, Stamp.given_add, Stamp.given_ofAll]
      refine .bind (draws_head head) (fun head => .bind (draws_form ih) (fun form => .pure ?_) (add_zero _).le) le_rfl
      rw [Tree.stamps_node, <- Multiset.singleton_add]
      simp

/-- Numbering keeps the identifiers that were given and draws the others. -/
theorem Tree.stamps_settle
    (tree : Tree)
    (next : Nat) :
    next ≤ (tree.settle.run next).2 ∧
      (tree.settle.run next).1.stamps ≤ Stamp.given tree.stamps + Stamp.drawn next (tree.settle.run next).2 :=
  draws_tree tree next

/-- The identifiers that numbering gives are distinct. -/
theorem Tree.nodup_ids_settle
    {tree : Tree}
    (isNew : forall stamp, stamp ∈ tree.ids -> stamp = .pending)
    (next : Nat) :
    (tree.settle.run next).1.ids.Nodup := by
  have none : Stamp.given tree.stamps = 0 :=
    Multiset.filter_eq_nil.2 fun stamp member => not_not.2 (isNew stamp (Multiset.mem_coe.1 member))
  obtain ⟨-, isDrawn⟩ := tree.stamps_settle next
  rw [none, zero_add] at isDrawn
  exact Multiset.coe_nodup.1 (Multiset.nodup_of_le isDrawn (Stamp.nodup_drawn ..))

end Java
end Lossless
