import Lossless.Proofs.Java.Form
import Lossless.Proofs.Java.Numbered
import Lossless.Proofs.Java.Walk
import Mathlib.Data.List.Flatten

/-!
# Visitors that delete nodes

A visitor that deletes nodes, be it before their children, in place of them or after them, and does nothing else,
makes of a tree what is left of it without them.
-/

namespace Lossless
namespace Java

/-!
## Syntax trees without some of their nodes

`Tree.prune` takes the doomed nodes out of a tree. What goes for the lack of a child is told by `Lost`: the doomed
nodes, and upwards every node that needs one that goes. Whatever stays keeps its identifier, its spaces, its markers
and the order of its children.
-/

namespace Tree

variable {doomed : Tree -> Bool}

/-- What is left of a tree when the doomed nodes go; a node that loses nothing is the same cell. -/
def prune (doomed : Tree -> Bool) (tree : Tree) : Option Tree :=
  recurse
    (fun head form =>
      if doomed (node head (form.map Prod.fst)) then none
      else (form.prune Prod.snd).map (node head (form.map Prod.fst)).withForm)
    tree

theorem prune_node
    (doomed : Tree -> Bool)
    (head : Head)
    (form : Form Tree) :
    (node head form).prune doomed =
      if doomed (node head form) then none
      else (form.prune (prune doomed)).map (node head form).withForm := by
  rw [prune, recurse_node, Form.map_fst_withValue, Form.prune_map]
  rfl

/-- What is left of a tree depends on which of its nodes are doomed, and on nothing else. -/
theorem prune_congr
    {other : Tree -> Bool}
    {tree : Tree}
    (same : forall node, node ∈ tree.nodes -> doomed node = other node) :
    tree.prune doomed = tree.prune other := by
  induction tree using Tree.induction with
  | step head form ih =>
      have children : form.prune (prune doomed) = form.prune (prune other) :=
        Form.prune_congr fun child member =>
          ih child member fun node inside => same node (mem_nodes_of_mem_children member inside)
      rw [prune_node, prune_node, same _ (mem_nodes_self _), children]

/-- A tree without doomed nodes stays the same cell. -/
theorem prune_of_spared
    {tree : Tree}
    (spared : forall node, node ∈ tree.nodes -> doomed node = false) :
    tree.prune doomed = some tree := by
  induction tree using Tree.induction with
  | step head form ih =>
      have children : form.prune (prune doomed) = some form := by
        have stays : form.prune (prune doomed) = form.prune fun child => some ((fun child => child) child) :=
          Form.prune_congr fun child member =>
            ih child member fun node inside => spared node (mem_nodes_of_mem_children member inside)
        rw [stays, Form.prune_eq_map, (Form.map_eq_self_iff _ form).2 fun _ _ => rfl]
      have isSpared : ¬ doomed (node head form) := by simp [spared _ (mem_nodes_self _)]
      rw [prune_node, if_neg isSpared, children]
      exact congrArg some (revise_self (node head form))

/-- The nodes that go: the doomed ones, and upwards every node that needs one that goes. -/
inductive Lost (doomed : Tree -> Bool) : Tree -> Prop
  | itself {tree : Tree} (isDoomed : doomed tree) : Lost doomed tree
  | upwards {tree child : Tree} (isNeeded : child ∈ tree.form.needed) (isLost : Lost doomed child) : Lost doomed tree

theorem prune_eq_none_iff
    (doomed : Tree -> Bool)
    (tree : Tree) :
    tree.prune doomed = none ↔ Lost doomed tree := by
  induction tree using Tree.induction with
  | step head form ih =>
      rw [prune_node]
      constructor
      · intro gone
        split at gone
        · next isDoomed => exact .itself isDoomed
        · rw [Option.map_eq_none_iff, Form.prune_eq_none_iff] at gone
          obtain ⟨child, isNeeded, gone⟩ := gone
          exact .upwards isNeeded ((ih child (form.needed_subset isNeeded)).1 gone)
      · rintro (isDoomed | ⟨isNeeded, isLost⟩)
        · exact if_pos isDoomed
        · have gone := (ih _ (form.needed_subset isNeeded)).2 isLost
          split
          · rfl
          · rw [Option.map_eq_none_iff, Form.prune_eq_none_iff]
            exact ⟨_, isNeeded, gone⟩

/-! ### What stays -/

/-- The nodes of a tree that stay: those that do not go, below none that goes. -/
def survivors (doomed : Tree -> Bool) (tree : Tree) : List Tree :=
  recurse
    (fun head form =>
      if ((node head (form.map Prod.fst)).prune doomed).isSome then
        node head (form.map Prod.fst) :: form.children.flatMap fun child => child.2
      else [])
    tree

theorem survivors_node
    (doomed : Tree -> Bool)
    (head : Head)
    (form : Form Tree) :
    (node head form).survivors doomed =
      if ((node head form).prune doomed).isSome then node head form :: form.children.flatMap (survivors doomed)
      else [] := by
  rw [survivors, recurse_node, Form.map_fst_withValue, Form.children_map, List.flatMap_map]
  rfl

theorem survivors_of_prune_eq_none
    {tree : Tree}
    (gone : tree.prune doomed = none) :
    tree.survivors doomed = [] := by
  obtain ⟨head, form⟩ := tree
  rw [survivors_node, gone]
  rfl

/-- The nodes that stay are in the order of all nodes. -/
theorem survivors_sublist
    (doomed : Tree -> Bool)
    (tree : Tree) :
    (tree.survivors doomed).Sublist tree.nodes := by
  induction tree using Tree.induction with
  | step head form ih =>
      rw [survivors_node, nodes_node]
      split
      · exact (List.Sublist.flatMap_right form.children ih).cons_cons _
      · exact List.nil_sublist _

/-- A node and what is left of it: all is kept but the children that go. -/
structure Keeps
    (doomed : Tree -> Bool)
    (tree : Tree)
    (left : Tree) : Prop where
  id : left.id = tree.id
  leading : left.leading = tree.leading
  markers : left.markers = tree.markers
  form : tree.form.prune (prune doomed) = some left.form
  children : left.children = tree.children.filterMap (prune doomed)

theorem keeps_of_prune
    {tree left : Tree}
    (isLeft : tree.prune doomed = some left) :
    Keeps doomed tree left := by
  obtain ⟨head, form⟩ := tree
  rw [prune_node] at isLeft
  split at isLeft
  · cases isLeft
  · obtain ⟨pruned, isPruned, rfl⟩ := Option.map_eq_some_iff.1 isLeft
    have sameForm : ((node head form).withForm pruned).form = pruned := form_revise ..
    refine ⟨id_revise .., leading_revise .., markers_revise .., by rw [sameForm]; exact isPruned, ?_⟩
    rw [Tree.children, sameForm]
    exact Form.children_of_prune isPruned

/-- What is left of a tree is made of what is left of the nodes that stay, one for one. -/
theorem survivors_keep
    {tree left : Tree}
    (isLeft : tree.prune doomed = some left) :
    List.Forall₂ (Keeps doomed) (tree.survivors doomed) left.nodes := by
  induction tree using Tree.induction generalizing left with
  | step head form ih =>
      have keeps := keeps_of_prune isLeft
      have below : forall list : List Tree, list ⊆ form.children ->
          List.Forall₂ (Keeps doomed) (list.flatMap (survivors doomed)) ((list.filterMap (prune doomed)).flatMap nodes) := by
        intro list
        induction list with
        | nil => exact fun _ => .nil
        | cons child rest later =>
            intro inside
            obtain ⟨isChild, restInside⟩ := List.cons_subset.1 inside
            rw [List.flatMap_cons, List.filterMap_cons]
            cases outcome : child.prune doomed with
            | none =>
                rw [survivors_of_prune_eq_none outcome]
                exact later restInside
            | some left => exact List.rel_append (ih child isChild outcome) (later restInside)
      have nodesOfLeft : left.nodes = left :: (form.children.filterMap (prune doomed)).flatMap nodes := by
        have children := keeps.children
        obtain ⟨leftHead, leftForm⟩ := left
        rw [nodes_node]
        exact congrArg (fun list => Tree.node leftHead leftForm :: list.flatMap nodes) children
      rw [survivors_node, isLeft, nodesOfLeft]
      exact .cons keeps (below _ (List.Subset.refl _))

end Tree

open VisitM

variable {σ γ : Type}

/-- A node of the list has the identifier of the tree. -/
def Tree.isAmong
    (list : List Tree)
    (tree : Tree) : Bool :=
  list.any fun node => node.id = tree.id

namespace Tree

theorem isAmong_append
    (first second : List Tree)
    (tree : Tree) :
    tree.isAmong (first ++ second) = (tree.isAmong first || tree.isAmong second) :=
  List.any_append

theorem isAmong_iff
    {list : List Tree}
    {tree node : Tree}
    (distinct : tree.ids.Nodup)
    (within : list ⊆ tree.nodes)
    (isNode : node ∈ tree.nodes) :
    node.isAmong list = true ↔ node ∈ list := by
  rw [isAmong, List.any_eq_true]
  constructor
  · rintro ⟨other, isListed, same⟩
    rwa [<- eq_of_id_eq distinct isNode (within isListed) (of_decide_eq_true same)]
  · exact fun isListed => ⟨node, isListed, decide_eq_true rfl⟩

end Tree

namespace Visitor

/--
The visitor that does nothing but delete nodes: some before it comes to their children, some in place of walking
through them, and some after it has.
-/
def deleter (early inPlace late : List Tree) : Visitor σ γ where
  before := fun tree => return if tree.isAmong early then none else some tree
  dispatch := fun descend tree => if tree.isAmong inPlace then return none else descend tree
  after := fun tree => return if tree.isAmong late then none else some tree

section Visit

variable (early inPlace late : List Tree)

/-- What the visitor does inside a node that it does not delete early. -/
theorem visitInside_deleter_answers
    {visitChild : Tree -> TreeVisit σ γ (Option Tree)}
    {tree : Tree}
    (goesOn : ¬ tree.isAmong early)
    (children : forall child, child ∈ tree.children ->
      (visitChild child).Answers (child.prune (Tree.isAmong (early ++ inPlace ++ late)))) :
    ((deleter early inPlace late : Visitor σ γ).traversal.visitInside visitChild (some tree)).Answers
      (tree.prune (Tree.isAmong (early ++ inPlace ++ late))) := by
  obtain ⟨head, form⟩ := tree
  have somewhere : (Tree.node head form).isAmong (early ++ inPlace ++ late) =
      ((Tree.node head form).isAmong inPlace || (Tree.node head form).isAmong late) := by
    simp [Tree.isAmong_append, goesOn]
  rw [Tree.prune_node, somewhere]
  by_cases isInPlace : (Tree.node head form).isAmong inPlace
  · have dispatches : ((deleter early inPlace late : Visitor σ γ).traversal.dispatch visitChild
        (.node head form)).Answers none := by
      simp only [Visitor.traversal, deleter, if_pos isInPlace]
      exact .pure none
    rw [if_pos (by simp [isInPlace])]
    exact .bind dispatches (.pure none)
  · have dispatches : ((deleter early inPlace late : Visitor σ γ).traversal.dispatch visitChild
        (.node head form)).Answers
          ((form.prune (Tree.prune (Tree.isAmong (early ++ inPlace ++ late)))).map (Tree.node head form).withForm) := by
      simp only [Visitor.traversal, deleter, if_neg isInPlace]
      exact descend_answers _ ⟨fun _ _ => .pure _, fun _ => .pure _⟩ rfl children
    refine .bind dispatches ?_
    cases form.prune (Tree.prune (Tree.isAmong (early ++ inPlace ++ late))) with
    | none =>
        rw [Option.map_none, ite_self]
        exact .pure none
    | some pruned =>
        -- The hook after the node knows it by its identifier, which the walk keeps.
        have known : ((Tree.node head form).withForm pruned).isAmong late = (Tree.node head form).isAmong late := by
          rw [Tree.isAmong, Tree.withForm, Tree.id_revise, Tree.isAmong]
        simp only [Option.map_some, Visitor.traversal, deleter, known, isInPlace, Bool.false_or]
        exact .pure _

/-- The visitor makes of a tree what is left of it. -/
theorem deleter_answers (tree : Tree) :
    ((deleter early inPlace late : Visitor σ γ).run tree).Answers
      (tree.prune (Tree.isAmong (early ++ inPlace ++ late))) := by
  refine Traversal.visit_answers_of _ Tree.children Tree.height (fun tree child member => ?_) (fun _ _ => Nat.le_refl _)
    (fun generations visitChild tree children own => ?_) tree
  · obtain ⟨head, form⟩ := tree
    exact Tree.height_lt_of_mem_children member
  · have wanted : ((deleter early inPlace late : Visitor σ γ).traversal.wants tree).Answers true :=
      Traversal.wants_answers (fun _ => .pure true) (fun _ => .pure true) tree
    have before : ((deleter early inPlace late : Visitor σ γ).traversal.before tree).Answers
        (if tree.isAmong early then none else some tree) := .pure _
    refine Traversal.enter_moves_inside (Traversal.drainWithin_answers generations) wanted (before.moves own) (Answers.moves ?_ own)
    split
    · next isEarly =>
        obtain ⟨head, form⟩ := tree
        have somewhere : (Tree.node head form).isAmong (early ++ inPlace ++ late) := by
          simp [Tree.isAmong_append, isEarly]
        rw [Tree.prune_node, if_pos somewhere]
        exact .pure none
    · next goesOn => exact visitInside_deleter_answers early inPlace late goesOn children

end Visit
end Visitor

/-- What deleting nodes does to a tree, and what it leaves alone. -/
structure DeletionIsPruning
    (σ γ : Type)
    (early inPlace late : List Tree)
    (tree : Tree) : Prop where
  /-- The visit gives the tree without the nodes and leaves the visitor as it was. -/
  prunes : forall cursor (own : σ) (world : γ),
    (Visitor.deleter early inPlace late).run tree (.start cursor .never own world) =
      (.ok (tree.prune (· ∈ early ++ inPlace ++ late)), .start cursor .never own world)
  /-- A node goes just when it is deleted or needs one that goes. -/
  goes : forall node : Tree,
    node.prune (· ∈ early ++ inPlace ++ late) = none ↔ node.Lost (· ∈ early ++ inPlace ++ late)
  /-- Node by node, what stays keeps its identifier, its spaces, its markers and the children that stay. -/
  keeps : forall left, tree.prune (· ∈ early ++ inPlace ++ late) = some left ->
    List.Forall₂ (Tree.Keeps (· ∈ early ++ inPlace ++ late)) (tree.survivors (· ∈ early ++ inPlace ++ late)) left.nodes
  /-- What stays is in the order in which it was. -/
  order : (tree.survivors (· ∈ early ++ inPlace ++ late)).Sublist tree.nodes
  /-- A node that holds no deleted one is the very same cell. -/
  same : forall node : Tree, (forall inside, inside ∈ node.nodes -> inside ∉ early ++ inPlace ++ late) ->
    node.prune (· ∈ early ++ inPlace ++ late) = some node

/-- In a tree with distinct identifiers deletion is pruning, whichever nodes go and whenever. -/
theorem deletion_isPruning
    (σ γ : Type)
    (tree : Tree)
    (distinct : tree.ids.Nodup)
    (early inPlace late : List Tree)
    (within : early ++ inPlace ++ late ⊆ tree.nodes) :
    DeletionIsPruning σ γ early inPlace late tree where
  prunes := by
    intro cursor own world
    have byIdentifier : tree.prune (Tree.isAmong (early ++ inPlace ++ late)) =
        tree.prune (· ∈ early ++ inPlace ++ late) :=
      Tree.prune_congr fun node isNode =>
        Bool.eq_iff_iff.2 ((Tree.isAmong_iff distinct within isNode).trans decide_eq_true_iff.symm)
    rw [<- byIdentifier]
    exact Visitor.deleter_answers early inPlace late tree _ ⟨rfl, rfl⟩
  goes := fun node => node.prune_eq_none_iff _
  keeps := fun _ isLeft => Tree.survivors_keep isLeft
  order := tree.survivors_sublist _
  same := fun _ spared => Tree.prune_of_spared fun inside isInside => decide_eq_false (spared inside isInside)

/-- The call `f(a, b)`, the return of `v` and the assignment of `y` to `x`, in a block. -/
def threeStatements : Tree :=
  let call := Tree.build (.call none (.identifier ['f']) (Tree.argumentsOf [.identifier ['a'], .identifier ['b']]) none)
  let returns := Tree.build (.returns (some (.identifier ['v'])))
  let assignment := Tree.build (.assignment (.identifier ['x']) (.build (.identifier ['y'])) none)
  ((Tree.build (.block [.build call, .build returns, .build assignment] .empty)).settle 0).1

/-- The nodes of a name. -/
def threeStatements.named (name : Text) : List Tree :=
  threeStatements.nodes.filter fun node => node.text = name

/-- An argument goes by itself, a returned value leaves a bare return, and a target takes its assignment along. -/
theorem deletion_ofThreeStatements :
    let early := threeStatements.named ['a']
    let inPlace := threeStatements.named ['v']
    let late := threeStatements.named ['x']
    threeStatements.ids.Nodup ∧ early ++ inPlace ++ late ⊆ threeStatements.nodes ∧
      exists left : Tree,
        ((Visitor.deleter early inPlace late : Visitor Unit Unit).run threeStatements (.start .root .never () ())).1 =
            .ok (some left) ∧
          left.nodes.map Tree.text = [[], [], ['f'], ['b'], []] ∧
          left.ids = threeStatements.ids.take 3 ++ (threeStatements.ids.drop 4).take 2 := by
  intro early inPlace late
  have distinct : threeStatements.ids.Nodup := by decide
  have within : early ++ inPlace ++ late ⊆ threeStatements.nodes := by
    simp only [List.append_subset]
    exact ⟨⟨List.filter_subset_self _, List.filter_subset_self _⟩, List.filter_subset_self _⟩
  have isPruning := deletion_isPruning Unit Unit threeStatements distinct early inPlace late within
  have pruned : ((threeStatements.prune (· ∈ early ++ inPlace ++ late)).map fun left =>
      (left.nodes.map Tree.text, left.ids)) =
      some ([[], [], ['f'], ['b'], []], threeStatements.ids.take 3 ++ (threeStatements.ids.drop 4).take 2) := by
    decide +kernel
  obtain ⟨left, isLeft, atLeft⟩ := Option.map_eq_some_iff.1 pruned
  have visited := isPruning.prunes .root () ()
  rw [isLeft] at visited
  exact ⟨distinct, within, left, congrArg Prod.fst visited, congrArg Prod.fst atLeft, congrArg Prod.snd atLeft⟩

end Java
end Lossless
