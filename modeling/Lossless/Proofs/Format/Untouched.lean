import Lossless.Format.Separate
import Lossless.Proofs.Format.Hooks
import Lossless.Proofs.Java.Normal.Statement
import Lossless.Proofs.Layout.Changed

/-!
# Trees that a pass leaves as they are

A pass over nodes gives a tree back, the same cell, when its change leaves every node of the tree as it is, wherever
the run is told to stop. The first part says so for any pass over nodes; the second is about the pass that hoists the
space before return types, which finds none to hoist in a parsed tree.
-/

namespace Lossless
namespace Format

open Java VisitM

/-! ## Walks that leave parts as they are -/

section Idle

variable (stays : Tree -> Prop)

/-- Something holds of every node of some trees. -/
def AllStay (trees : List Tree) : Prop :=
  forall tree, tree ∈ trees -> forall node, node ∈ tree.nodes -> stays node

/-- Spaces and markers are left as they are, and nodes with them when something holds of every node inside. -/
def idleRelation : WalkRelation where
  space := fun _ _ old _ new => new = old
  markers := fun _ old _ new => new = old
  child := fun _ old _ new => AllStay stays [old] -> new = old
  list := fun _ _ old _ new => AllStay stays old.elements -> new = old
  opens := fun _ _ _ => True
  closes := fun _ old _ new => stays old -> new = old

end Idle

section Walked

variable {stays : Tree -> Prop}
variable {view left : View}

/-- What holds of every node of some trees holds of every node of one of them. -/
theorem AllStay.of_mem
    {trees : List Tree}
    {tree : Tree}
    (all : AllStay stays trees)
    (member : tree ∈ trees) :
    AllStay stays [tree] :=
  List.forall_mem_singleton.2 (all tree member)

theorem AllStay.subset
    {trees some : List Tree}
    (all : AllStay stays trees)
    (within : some ⊆ trees) :
    AllStay stays some :=
  fun tree member => all tree (within member)

theorem eq_of_idleElement
    {place : ElementPlace}
    {old new : RightPadded Tree}
    (walked : WalkedElement (idleRelation stays) place view old left new)
    (inside : AllStay stays [old.element]) :
    new = old := by
  cases walked with
  | mk element after markers =>
      obtain rfl := element inside
      obtain rfl := after
      obtain rfl := markers
      rfl

theorem eq_of_idleElements
    {place : ElementPlace}
    {old new : List (RightPadded Tree)}
    (walked : WalkedElements (idleRelation stays) place view old left new)
    (inside : AllStay stays (RightPadded.elements old)) :
    new = old := by
  induction walked with
  | nil => rfl
  | cons first _ ih =>
      obtain rfl := eq_of_idleElement first (inside.of_mem List.mem_cons_self)
      rw [ih (inside.subset (List.subset_cons_self ..))]

theorem eq_of_idleOperand
    {place : OperandPlace}
    {old new : LeftPadded Tree}
    (walked : WalkedOperand (idleRelation stays) place view old left new)
    (inside : AllStay stays [old.element]) :
    new = old := by
  cases walked with
  | mk before element markers =>
      obtain rfl := before
      obtain rfl := element inside
      obtain rfl := markers
      rfl

theorem eq_of_idleContainer
    {place : ContainerPlace}
    {old new : Container Tree}
    (walked : WalkedContainer (idleRelation stays) place view old left new)
    (inside : AllStay stays old.elements) :
    new = old := by
  cases walked with
  | mk before elements markers =>
      obtain rfl := before
      obtain rfl := eq_of_idleElements elements inside
      obtain rfl := markers
      rfl

theorem eq_of_idleOption
    {old new : Option Tree}
    (walked : WalkedOption (idleRelation stays).child view old left new)
    (inside : AllStay stays old.toList) :
    new = old := by
  cases walked with
  | none => rfl
  | some present => rw [present inside]

theorem eq_of_idleForm
    {old new : Form Tree}
    (walked : WalkedForm (idleRelation stays) view old left new)
    (inside : AllStay stays old.children) :
    new = old := by
  have among {trees : List Tree} (within : trees ⊆ old.children) : AllStay stays trees := inside.subset within
  cases walked with
  | compilationUnit statements eof =>
      obtain rfl := eq_of_idleElements statements inside
      obtain rfl := eof
      rfl
  | block statements closing =>
      obtain rfl := eq_of_idleElements statements inside
      obtain rfl := closing
      rfl
  | conditional condition consequence alternative =>
      obtain rfl := condition (among (by simp [Form.children]))
      obtain rfl := eq_of_idleElement consequence (among (by simp [Form.children]))
      obtain rfl := eq_of_idleOption alternative (among (by simp [Form.children]))
      rfl
  | otherwise body => rw [eq_of_idleElement body inside]
  | returns value => rw [eq_of_idleOption value inside]
  | assignment target value =>
      obtain rfl := target (among (by simp [Form.children]))
      rw [eq_of_idleOperand value (among (by simp [Form.children]))]
  | binary leftTree operator right =>
      obtain rfl := leftTree (among (by simp [Form.children]))
      obtain rfl := right (among (by simp [Form.children]))
      cases operator with
      | mk before markers =>
          obtain rfl := before
          obtain rfl := markers
          rfl
  | identifier => rfl
  | literal => rfl
  | fieldAccess target name =>
      obtain rfl := target (among (by simp [Form.children]))
      rw [eq_of_idleOperand name (among (by simp [Form.children]))]
  | call receiver name list =>
      obtain rfl := name (among (by simp [Form.children]))
      obtain rfl := list (among (by simp [Form.children]))
      cases receiver with
      | none => rfl
      | some receiver => rw [eq_of_idleElement receiver (among (by simp [Form.children]))]
  | declaration returnType name list body =>
      obtain rfl := eq_of_idleOption returnType (among (by simp [Form.children]))
      obtain rfl := name (among (by simp [Form.children]))
      obtain rfl := list (among fun _ member => by simp [Form.children, member])
      rw [eq_of_idleOption body (among fun _ member => by simp [Form.children, List.mem_append.2 (.inr member)])]
  | parentheses inner => rw [eq_of_idleElement inner inside]
  | collection list => rw [list inside]
  | empty => rfl
  | unknown => rfl

theorem eq_of_idleNode
    {old new : Tree}
    (walked : WalkedNode (idleRelation stays) view old left new)
    (inside : AllStay stays [old]) :
    new = old := by
  cases walked with
  | stopped => rfl
  | walked _ _ parts closes =>
      cases parts with
      | mk leading markers form =>
          have below : AllStay stays old.form.children := fun child isChild node member =>
            inside old List.mem_cons_self node (Tree.mem_nodes_of_mem_children isChild member)
          obtain rfl := leading
          obtain rfl := markers
          obtain rfl := eq_of_idleForm form below
          rw [Tree.revise_self] at closes
          exact closes (inside old List.mem_cons_self old (Tree.mem_nodes_self old))

end Walked

/-! ## Passes over nodes -/

section Pass

variable {change : TreeCursor -> Tree -> Tree}

theorem ofNodes_gaps_idle (change : TreeCursor -> Tree -> Tree) (stays : Tree -> Prop) :
    (Pass.ofNodes change).toGapVisitor.Walks (idleRelation stays) where
  space := fun _ _ _ => .pure rfl
  markers := fun markers state => ⟨markers, state, markers_eq_self rfl markers state, rfl⟩

theorem ofNodes_walks_idle (change : TreeCursor -> Tree -> Tree) :
    (Pass.ofNodes change).Walks (idleRelation fun node => forall cursor, change cursor node = node) where
  gaps := ofNodes_gaps_idle change _
  list := fun _ place _ children state =>
    (GapVisitor.container_walks (ofNodes_gaps_idle change _) place children state).mono fun _ _ => eq_of_idleContainer
  before := fun _ _ isNew => .pure ⟨rfl, goesIn_of_isNew isNew, trivial⟩
  after := fun tree state => by
    refine .bind_eq rfl (.bind_eq (Pass.unlessStopped_eq tree (change state.cursor) state) (.pure ?_))
    refine ⟨_, rfl, fun stays => ?_⟩
    unfold changeFor
    split
    · rfl
    · exact stays state.cursor
  accepts := rfl
  acceptsSource := rfl
  dispatch := rfl
  depthBound := rfl
  generations := rfl

/-- A pass over nodes gives a tree back when its change leaves every node of it as it is. -/
theorem ofNodes_run_of_untouched
    {tree : Tree}
    (untouched : forall node, node ∈ tree.nodes -> forall cursor, change cursor node = node)
    (stopAfter : Option Stamp)
    (parent : TreeCursor) :
    (Pass.ofNodes change).run stopAfter parent tree = .ok (some tree) := by
  obtain ⟨_, left, runs, new, rfl, same⟩ :=
    Visitor.run_walks (ofNodes_walks_idle change) (fun _ _ _ _ => eq_of_idleNode) tree
      (.start parent (.ofTarget stopAfter) () ())
  obtain rfl := same (List.forall_mem_singleton.2 untouched)
  exact congrArg Prod.fst runs

end Pass

/-! ## Trees with nothing to hoist -/

/-- The type that is written before the name of a declaration. -/
def returnType? : Form α -> Option α
  | .declaration returnType _ _ _ => returnType
  | _ => none

/-- Nothing stands before the return types of declarations. -/
def IsHoisted (tree : Tree) : Prop :=
  forall node, node ∈ tree.nodes -> forall returnType, returnType? node.form = some returnType ->
    returnType.leading.isEmpty = true

variable {tree : Tree}

theorem isHoisted_iff (tree : Tree) :
    IsHoisted tree ↔
      (forall returnType, returnType? tree.form = some returnType -> returnType.leading.isEmpty = true) ∧
        forall child, child ∈ tree.form.children -> IsHoisted child := by
  constructor
  · exact fun hoisted => ⟨hoisted tree (Tree.mem_nodes_self tree),
      fun child isChild node inside => hoisted node (Tree.mem_nodes_of_mem_children isChild inside)⟩
  · rintro ⟨atRoot, below⟩ node member
    rcases Tree.eq_or_exists_of_mem_nodes member with rfl | ⟨child, isChild, inside⟩
    · exact atRoot
    · exact below child isChild node inside

/-- Where nothing stands before the return type, nothing is hoisted. -/
theorem hoistReturnType_eq_self
    (atRoot : forall returnType, returnType? tree.form = some returnType -> returnType.leading.isEmpty = true) :
    hoistReturnType tree = tree := by
  unfold hoistReturnType
  split
  · next found => rw [if_pos (atRoot _ (by rw [found]; rfl))]
  · rfl

/-- Hoisting gives a tree back in which there is nothing to hoist. -/
theorem normalizeFormat_run_of_isHoisted
    (hoisted : IsHoisted tree)
    (stopAfter : Option Stamp)
    (parent : TreeCursor) :
    normalizeFormat.run stopAfter parent tree = .ok (some tree) :=
  ofNodes_run_of_untouched (fun node inside _ => hoistReturnType_eq_self (hoisted node inside)) stopAfter parent

/-! ### Numbered trees -/

section Numbered

variable {settleChild : Tree -> Numbering Tree}

theorem isEmpty_settle
    (space : Space)
    (next : Nat) :
    (space.settle.run next).1.isEmpty = space.isEmpty := by
  obtain ⟨stamp, whitespace, comments⟩ := space
  cases comments with
  | nil => rfl
  | cons first rest =>
      change (whitespace.isEmpty && ((List.mapM Comment.settle (first :: rest)).run _).1.isEmpty) = _
      rw [List.mapM_cons]
      rfl

theorem leading_settle
    (tree : Tree)
    (next : Nat) :
    ∃ later, (tree.settle.run next).1.leading = (tree.leading.settle.run later).1 := by
  obtain ⟨head, form⟩ := tree
  rw [Tree.settle_node]
  exact ⟨_, rfl⟩

/-- The children of a numbered form are numbered. -/
theorem isNumbered_children
    (form : Form Tree)
    (next : Nat) :
    List.Forall₂ (IsNumbered settleChild) form.children ((form.settle settleChild).run next).1.children := by
  rw [← form.map_roles, ← Form.map_roles]
  exact List.forall₂_map_left_iff.2 (List.forall₂_map_right_iff.2
    ((keepsRole_settle form next).imp fun _ _ keeps => keeps.2))

theorem isNumbered_returnType
    {form : Form Tree}
    {next : Nat}
    {new : Tree}
    (found : returnType? ((form.settle settleChild).run next).1 = some new) :
    ∃ old, returnType? form = some old ∧ IsNumbered settleChild old new := by
  cases form with
  | declaration returnType =>
      cases returnType with
      | none => cases found
      | some returnType =>
          cases found
          exact ⟨returnType, rfl, _, rfl⟩
  | _ => cases found

/-- There is nothing to hoist in a tree that is numbered when there was nothing before. -/
theorem IsHoisted.settle
    (hoisted : IsHoisted tree)
    (next : Nat) :
    IsHoisted (tree.settle.run next).1 := by
  induction tree using Tree.induction generalizing next with
  | step head form ih =>
      obtain ⟨atRoot, below⟩ := (isHoisted_iff _).1 hoisted
      obtain ⟨later, atForm⟩ := Tree.form_settle (.node head form) next
      rw [isHoisted_iff, atForm]
      constructor
      · intro new found
        obtain ⟨old, isType, _, rfl⟩ := isNumbered_returnType found
        obtain ⟨atLeading, leading⟩ := leading_settle old _
        rw [leading, isEmpty_settle]
        exact atRoot old isType
      · intro new isChild
        obtain ⟨old, isOld, _, rfl⟩ := exists_of_forall₂ (isNumbered_children form later) isChild
        exact ih old isOld (below old isOld) _

end Numbered

/-! ## Parsed trees -/

theorem isHoisted_of_isNormal (normal : tree.IsNormal) : IsHoisted tree := by
  intro node inside returnType found
  refine (normal node inside).form.opening returnType ?_
  cases form : node.form with
  | declaration =>
      rw [form] at found
      cases found
      rfl
  | _ =>
      rw [form] at found
      cases found

theorem eq_alternative_of_admits
    {role : Role}
    {form : Form Tree}
    (isOtherwise : form.isOtherwise = true)
    (admits : role.admits form = true) :
    role = .alternative := by
  cases form with
  | otherwise body =>
      cases role with
      | alternative => rfl
      | _ => exact absurd (show false = true from admits) Bool.false_ne_true
  | _ => cases isOtherwise

theorem eq_signature_of_admits
    {role : Role}
    {form : Form Tree}
    (isUnknown : form.isUnknown = true)
    (admits : role.admits form = true) :
    role = .signature := by
  cases form with
  | unknown text =>
      cases role with
      | signature => rfl
      | _ => exact absurd (show false = true from admits) Bool.false_ne_true
  | _ => cases isUnknown

/--
A source is parsed as a unit in normal form with nothing before it, where only the alternative of a conditional starts
with an `else` and only the signature of a declaration keeps words as they were written. The pass that hoists the space
before return types gives the numbered unit back, wherever it stops.
-/
theorem parsedUnits_areNormal
    {source : Text}
    {path : Path}
    (parsed : parse source path = .ok tree) :
    tree.form.isUnit = true ∧ tree.leading.isEmpty = true ∧
      (forall node, node ∈ tree.nodes -> node.IsNormalNode ∧
        forall part, part ∈ node.form.roles ->
          (part.2.form.isOtherwise = true -> part.1 = .alternative) ∧
            (part.2.form.isUnknown = true -> part.1 = .signature)) ∧
      forall next stopAfter parent,
        normalizeFormat.run stopAfter parent (tree.settle.run next).1 = .ok (some (tree.settle.run next).1) := by
  obtain ⟨isUnit, sorted⟩ := isSorted_of_parse parsed
  obtain ⟨normal, isEmpty⟩ := isNormal_of_parse parsed
  refine ⟨isUnit, isEmpty, fun node inside => ⟨normal node inside, fun part isPart => ?_⟩, fun next stopAfter parent => ?_⟩
  · have admits := sorted node inside part isPart
    exact ⟨fun isOtherwise => eq_alternative_of_admits isOtherwise admits,
      fun isUnknown => eq_signature_of_admits isUnknown admits⟩
  · exact normalizeFormat_run_of_isHoisted ((isHoisted_of_isNormal normal).settle next) stopAfter parent

/-- A declaration with a conditional, a call with a trailing comma, and comments. -/
theorem parsedUnits_areNormal_ofDeclaration :
    exists tree,
      parse "/* a */ void f() \x7b if (b) c(d , ); else e = f + g; // h\n \x7d".toList ⟨"A.java".toList⟩ = .ok tree ∧
      tree.IsNormal ∧
        normalizeFormat.run none .root (tree.settle.run 0).1 = .ok (some (tree.settle.run 0).1) := by
  have isOk :
      (parse "/* a */ void f() \x7b if (b) c(d , ); else e = f + g; // h\n \x7d".toList ⟨"A.java".toList⟩).isOk = true := by
    decide +kernel
  generalize parsed :
    parse "/* a */ void f() \x7b if (b) c(d , ); else e = f + g; // h\n \x7d".toList ⟨"A.java".toList⟩ =
      outcome at isOk
  cases outcome with
  | error => cases isOk
  | ok tree =>
      obtain ⟨-, -, nodes, untouched⟩ := parsedUnits_areNormal parsed
      exact ⟨tree, rfl, fun node inside => (nodes node inside).1, untouched 0 none .root⟩

end Format
end Lossless
