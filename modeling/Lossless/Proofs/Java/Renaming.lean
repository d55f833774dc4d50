import Lossless.Proofs.Java.Walk

/-!
# Other names in a syntax tree

`Tree.mapNames` gives the identifiers of a tree other names. A node is the same cell as before exactly when
no name in it changes; else it is a new cell with the old identifier, space and markers. A visitor that
renames identifiers, and does nothing else, makes just that of its tree.
-/

namespace Lossless

variable {σ γ α β δ : Type}

open VisitM

namespace Java

namespace Form

/-- The names of the node itself: that of an identifier. -/
def ownNames : Form α -> List Text
  | identifier name _ => [name]
  | _ => []

@[simp] theorem ownNames_map
    (change : α -> β)
    (form : Form α) :
    (form.map change).ownNames = form.ownNames := by
  cases form <;> rfl

/-- Give an identifier another name. -/
def mapName (change : Text -> Text) : Form α -> Form α
  | identifier name typeTag => identifier (change name) typeTag
  | form => form

@[simp] theorem children_mapName
    (change : Text -> Text)
    (form : Form α) :
    (form.mapName change).children = form.children := by
  cases form <;> rfl

/-- Other children and another name leave the form as it is when each of them is the one from before. -/
theorem mapName_map_eq_self_iff
    (changeChild : α -> α)
    (change : Text -> Text)
    (form : Form α) :
    (form.map changeChild).mapName change = form ↔
      (forall name, name ∈ form.ownNames -> change name = name) ∧
        forall child, child ∈ form.children -> changeChild child = child := by
  cases form with
  | identifier name typeTag => simp [map, mapName, ownNames, children]
  | _ =>
      rw [<- map_eq_self_iff changeChild]
      simp [map, mapName, ownNames]

end Form

namespace Tree

/-- The names of the identifiers in a tree in source order. -/
def names (tree : Tree) : List Text :=
  recurse (fun _ form => form.ownNames ++ form.children.flatMap Prod.snd) tree

theorem names_node
    (head : Head)
    (form : Form Tree) :
    (node head form).names = form.ownNames ++ form.children.flatMap names := by
  rw [names, recurse_node, Form.ownNames_map, Form.children_map, List.flatMap_map]
  rfl

/--
The tree with other names. A node is the same cell as before when no name in it changes, and else a new one
of the same identifier.
-/
def mapNames
    (change : Text -> Text)
    (tree : Tree) : Tree :=
  recurse
    (fun head form =>
      let within := form.ownNames ++ form.children.flatMap fun child => child.1.names
      let stamp := if within.all fun name => change name = name then head.stamp else .pending
      node { head with stamp } ((form.map Prod.snd).mapName change))
    tree

theorem mapNames_node
    (change : Text -> Text)
    (head : Head)
    (form : Form Tree) :
    (node head form).mapNames change =
      node
        { head with
          stamp :=
            if (node head form).names.all fun name => change name = name then head.stamp else .pending }
        ((form.map (mapNames change)).mapName change) := by
  rw [mapNames, recurse_node, names_node]
  simp only [Form.map_map, Form.ownNames_map, Form.children_map, List.flatMap_map]
  rfl

/-- A tree comes back as the same cell exactly when no name in it changes. -/
theorem mapNames_eq_self_iff
    (change : Text -> Text)
    (tree : Tree) :
    tree.mapNames change = tree ↔ forall name, name ∈ tree.names -> change name = name := by
  induction tree using Tree.induction with
  | step head form ih =>
      have atForm := Form.mapName_map_eq_self_iff (mapNames change) change form
      have isWithin (name : Text) : name ∈ (node head form).names ↔
          name ∈ form.ownNames ∨ exists child, child ∈ form.children ∧ name ∈ child.names := by
        rw [names_node, List.mem_append, List.mem_flatMap]
      rw [mapNames_node, node.injEq, atForm]
      constructor
      · rintro ⟨-, own, children⟩ name member
        rcases (isWithin name).1 member with here | ⟨child, isChild, below⟩
        · exact own name here
        · exact (ih child isChild).1 (children child isChild) name below
      · intro unchanged
        have all : (node head form).names.all (fun name => change name = name) = true := by
          simpa using unchanged
        refine ⟨by rw [if_pos all], fun name here => unchanged name ((isWithin name).2 (.inl here)), ?_⟩
        intro child isChild
        exact (ih child isChild).2 fun name below =>
          unchanged name ((isWithin name).2 (.inr ⟨child, isChild, below⟩))

/-- The nodes of the tree with other names are those of the tree, each with its other names. -/
theorem nodes_mapNames
    (change : Text -> Text)
    (tree : Tree) :
    (tree.mapNames change).nodes = tree.nodes.map (mapNames change) := by
  induction tree using Tree.induction with
  | step head form ih =>
      have children : ((form.map (mapNames change)).mapName change).children =
          form.children.map (mapNames change) := by
        rw [Form.children_mapName, Form.children_map]
      rw [nodes_node, List.map_cons, mapNames_node, nodes_node, children, List.flatMap_map,
        List.map_flatMap]
      congr 1
      exact List.flatMap_congr ih

/-- Revising a node with its changed children makes the cell that the change of its names asks for. -/
theorem revise_mapNames
    (change : Text -> Text)
    (tree : Tree) :
    tree.revise tree.leading tree.markers ((tree.form.map (mapNames change)).mapName change) =
      tree.mapNames change := by
  obtain ⟨head, form⟩ := tree
  by_cases same : (node head form).mapNames change = node head form
  · have sameForm := same
    rw [mapNames_node, node.injEq] at sameForm
    rw [same, show (node head form).form = form from rfl, sameForm.2]
    exact revise_self _
  · have unchanged := mt (mapNames_eq_self_iff change (node head form)).2 same
    have differs : (form.map (mapNames change)).mapName change ≠ form := by
      intro sameForm
      have atForm := (Form.mapName_map_eq_self_iff (mapNames change) change form).1 sameForm
      refine unchanged fun name member => ?_
      rw [names_node, List.mem_append, List.mem_flatMap] at member
      rcases member with own | ⟨child, isChild, within⟩
      · exact atForm.1 name own
      · exact (mapNames_eq_self_iff change child).1 (atForm.2 child isChild) name within
    rw [mapNames_node, if_neg (by simpa using unchanged), revise, if_neg fun same => differs same.2.2]
    rfl

end Tree

/-! ## Visitors of syntax trees -/

namespace Visitor

/-- The visitor that gives identifiers other names and does nothing else. -/
def renamer (change : Text -> Text) : Visitor σ γ where
  dispatch := fun descend tree =>
    match tree.form with
    | .identifier name _ => return some (tree.rename (change name))
    | _ => descend tree

theorem renamer_isPlain (change : Text -> Text) :
    (renamer change : Visitor σ γ).traversal.IsPlain :=
  ⟨fun _ => .pure _, fun _ => .pure _, fun _ => .pure _, fun _ => .pure _⟩

/-- A renaming visit gives the tree with the other names. -/
theorem renamer_answers
    (change : Text -> Text)
    (tree : Tree) :
    ((renamer change : Visitor σ γ).run tree).Answers (some (tree.mapNames change)) := by
  refine (renamer_isPlain change).visit_answers (Tree.mapNames change) Tree.children Tree.height
    (fun tree child member => ?_) (fun _ _ => Nat.le_refl _) (fun visit tree children => ?_) tree
  · obtain ⟨head, form⟩ := tree
    exact Tree.height_lt_of_mem_children member
  · have descended := (renamer change : Visitor σ γ).descend_answers_of_change
      ⟨fun _ _ => .pure _, fun _ => .pure _⟩ rfl children
    have revised := Tree.revise_mapNames change tree
    obtain ⟨head, form⟩ := tree
    cases form with
    | identifier name typeTag =>
        rw [<- revised]
        exact .pure _
    | _ =>
        rw [<- revised]
        exact descended

/-- A visitor that does nothing returns its tree. -/
theorem idle_answers (tree : Tree) : (({} : Visitor σ γ).run tree).Answers (some tree) := by
  have isPlain : ({} : Visitor σ γ).traversal.IsPlain :=
    ⟨fun _ => .pure _, fun _ => .pure _, fun _ => .pure _, fun _ => .pure _⟩
  refine isPlain.visit_answers id Tree.children Tree.height (fun tree child member => ?_)
    (fun _ _ => Nat.le_refl _) (fun visit tree children => ?_) tree
  · obtain ⟨head, form⟩ := tree
    exact Tree.height_lt_of_mem_children member
  · have descended := ({} : Visitor σ γ).descend_answers_of_change
      ⟨fun _ _ => .pure _, fun _ => .pure _⟩ rfl children
    rw [(Form.map_eq_self_iff id tree.form).2 fun _ _ => rfl, Tree.revise_self] at descended
    exact descended

end Visitor
end Java
end Lossless
