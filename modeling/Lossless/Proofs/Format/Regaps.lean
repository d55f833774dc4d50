import Lossless.Format.Pass
import Lossless.Format.Separate
import Lossless.Proofs.Format.Spaced
import Lossless.Proofs.Layout.Regapped

/-!
# Passes that change gaps alone

A pass never fails, whatever the tree, the frames around it and the node it is to stop after, and it leaves the bare
tree as it is. What it makes of the gaps follows from what it makes of every single space.
-/

namespace Lossless
namespace Format

open Java VisitM

/-- Such a pass gives of every tree one that is the same bare, with related gaps. -/
def Pass.Regaps
    (relates : Gaps -> Gaps -> Prop)
    (pass : Pass) : Prop :=
  forall stopAfter parent tree, exists new,
    pass.run stopAfter parent tree = .ok (some new) ∧ Regapped relates tree new

variable {relates : Gaps -> Gaps -> Prop}

/-- Spaces that are related as gaps of their own. -/
def GapOf
    (relates : Gaps -> Gaps -> Prop)
    (place : SpacePlace)
    (old new : Space) : Prop :=
  relates [(place, old)] [(place, new)]

/-- How a walk relates parts when its hooks change gaps alone. -/
abbrev gapRelation (relates : Gaps -> Gaps -> Prop) : WalkRelation :=
  regapping (GapOf relates) (Regapped relates) (Regapped relates)

/-- A pass changes gaps alone when its hooks do, and its hook after a node, too. -/
theorem Pass.regaps_of_walks
    {pass : Pass}
    (relation : IsGapRelation relates)
    (walks : Visitor.Walks pass (gapRelation relates)) :
    pass.Regaps relates := by
  intro stopAfter parent tree
  have node (view : View) (old : Tree) (left : View) (new : Tree)
      (walked : WalkedNode (gapRelation relates) view old left new) :
      Regapped relates old new := by
    rcases regapped_of_walked relation id walked (fun _ _ _ => id) with rfl | ⟨middle, parts, closed⟩
    · exact .refl relation _
    · exact parts.toRegapped.trans relation closed
  obtain ⟨_, left, runs, new, rfl, regapped⟩ :=
    Visitor.run_walks walks node tree (.start parent (.ofTarget stopAfter) () ())
  exact ⟨new, congrArg Prod.fst runs, regapped⟩

/-- Any gaps are related, so that all that is said is that the bare trees are the same. -/
theorem isGapRelation_true : IsGapRelation fun _ _ => True :=
  ⟨fun _ => trivial, fun _ _ => trivial, fun _ _ => trivial⟩

/-- What is true of every single space stays so. -/
def KeepsAll
    (holds : Space -> Prop)
    (old new : Gaps) : Prop :=
  (forall gap, gap ∈ old -> holds gap.2) -> forall gap, gap ∈ new -> holds gap.2

theorem isGapRelation_keepsAll (holds : Space -> Prop) : IsGapRelation (KeepsAll holds) where
  refl := fun _ => id
  trans := fun first second => second ∘ first
  append := fun first second all => by
    obtain ⟨here, more⟩ := List.forall_mem_append.1 all
    exact List.forall_mem_append.2 ⟨first here, second more⟩

theorem gapOf_keepsAll
    {holds : Space -> Prop}
    {place : SpacePlace}
    {old new : Space}
    (keeps : holds old -> holds new) :
    GapOf (KeepsAll holds) place old new := by
  intro all gap member
  rw [List.mem_singleton.1 member]
  exact keeps (all _ List.mem_cons_self)

/-- What a move to a column keeps true, with or without the whitespace before it, stays true of a moved space. -/
theorem gapOf_moved
    {holds : Space -> Prop}
    {style : IndentStyle}
    (dropped : forall space, holds space -> holds (space.withWhitespace []))
    (indented : forall column space, holds space -> holds (Exact.indentTo style column space))
    (place : SpacePlace)
    (old new : Space)
    (moved : Moved style place old new) :
    GapOf (KeepsAll holds) place old new := by
  refine gapOf_keepsAll fun held => ?_
  rcases moved with rfl | ⟨column, rfl⟩
  · exact held
  · refine indented column _ ?_
    unfold unindented
    split
    · exact dropped old held
    · exact held

theorem Pass.Regaps.bare_eq
    {pass : Pass}
    {stopAfter : Option Stamp}
    {parent : TreeCursor}
    {tree new : Tree}
    (regaps : pass.Regaps relates)
    (run : pass.run stopAfter parent tree = .ok (some new)) :
    new.bare = tree.bare := by
  obtain ⟨_, other, regapped⟩ := regaps stopAfter parent tree
  cases run.symm.trans other
  exact regapped.bare

/-! ## Markers -/

section Markers

variable {gap : SpacePlace -> Space -> Space -> Prop}

theorem regappedMarker_mapTrailingComma
    {change : Space -> Space}
    (same : forall place space, gap place space space)
    (each : forall space, gap .trailingCommaSuffix space (change space))
    (marker : Marker Space) :
    RegappedMarker gap marker (Exact.mapTrailingComma change marker) := by
  unfold Exact.mapTrailingComma
  split
  · next suffix isComma =>
      split
      · exact .refl same marker
      · exact regappedMarker_withFact isComma (each suffix)
  · exact .refl same marker

/-- Setting the suffix of the first trailing comma relates markers. -/
theorem regappedMarkers_updateTrailingComma
    {change : Space -> Space}
    (same : forall place space, gap place space space)
    (each : forall space, gap .trailingCommaSuffix space (change space))
    (markers : Markers Space) :
    RegappedMarkers gap markers (updateTrailingComma change markers) := by
  unfold updateTrailingComma
  split
  · exact .refl same markers
  · next comma found =>
      split
      · next suffix isComma =>
          split
          · exact .refl same markers
          · unfold Markers.setByKind Markers.computeByKind
            obtain ⟨list, changed, related⟩ := exists_changeFirst
              (fun _ => { comma.withFact (.trailingComma (change suffix)) with stamp := .pending })
              (RegappedMarker.refl same) found (regappedMarker_withFact isComma (each suffix))
            rw [changed]
            exact regappedMarkers_of_forall related
      · exact .refl same markers

end Markers

/-! ## Passes over spaces -/

variable (relation : IsGapRelation relates)

include relation

theorem ofSpaces_gaps_regap
    {change : SpacePlace -> Space -> Space}
    (each : forall place space, GapOf relates place space (change place space)) :
    (Exact.ofSpaces change).toGapVisitor.Walks (gapRelation relates) where
  space := fun place space state => by
    refine ⟨_, state, Pass.unlessStopped_eq .., ?_⟩
    unfold changeFor
    split
    · exact relation.refl _
    · exact each place space
  markers := fun markers state => by
    refine ⟨_, state, Pass.ofSpaces_markers_eq .., regappedMarkers_of_forall ?_⟩
    refine List.forall₂_map_right_iff.2 (List.forall₂_same.2 fun marker _ => ?_)
    unfold changeFor
    split
    · exact .refl (fun _ _ => relation.refl _) marker
    · exact regappedMarker_mapTrailingComma (fun _ _ => relation.refl _) (each _) marker

omit relation in
/-- A list that is visited in the ordinary way. -/
theorem container_walks_regap
    {visitor : GapVisitor Unit Unit}
    {gap : SpacePlace -> Space -> Space -> Prop}
    {child closes : Tree -> Tree -> Prop}
    (walks : visitor.Walks (regapping gap child closes))
    {visit : Tree -> PassVisit (Option Tree)}
    {place : ContainerPlace}
    {list : Container Tree}
    (children : forall tree, tree ∈ list.elements -> WalksTo (regapping gap child closes).child tree (visit tree)) :
    Java.Walks ((regapping gap child closes).list place) list (visitor.container visit place list) :=
  fun state => (GapVisitor.container_walks walks place children state).mono fun _ _ => regappedContainer_of_walked

/-- A pass over spaces changes gaps alone. -/
theorem ofSpaces_regaps
    {change : SpacePlace -> Space -> Space}
    (each : forall place space, GapOf relates place space (change place space)) :
    (Exact.ofSpaces change).Regaps relates := by
  refine Pass.regaps_of_walks relation {
    gaps := ofSpaces_gaps_regap relation each
    list := fun _ _ _ => container_walks_regap (ofSpaces_gaps_regap relation each)
    before := fun _ _ isNew => .pure ⟨rfl, goesIn_of_isNew isNew, trivial⟩
    after := fun tree _ => .pure ⟨tree, rfl, .refl relation tree⟩
    accepts := rfl
    acceptsSource := rfl
    dispatch := rfl
    depthBound := rfl
    generations := rfl }

/-! ## Passes over nodes -/

omit relation in
theorem ofNodes_gaps_regap
    {gap : SpacePlace -> Space -> Space -> Prop}
    {child closes : Tree -> Tree -> Prop}
    (same : forall place space, gap place space space)
    (change : TreeCursor -> Tree -> Tree) :
    (Pass.ofNodes change).toGapVisitor.Walks (regapping gap child closes) where
  space := fun place space _ => .pure (same place space)
  markers := fun markers state => ⟨markers, state, markers_eq_self rfl markers state, .refl same markers⟩

omit relation in
/-- The hook of such a pass changes a node or leaves it alone. -/
theorem ofNodes_walks_regap
    {gap : SpacePlace -> Space -> Space -> Prop}
    {child closes : Tree -> Tree -> Prop}
    {change : TreeCursor -> Tree -> Tree}
    (same : forall place space, gap place space space)
    (stays : forall tree, closes tree tree)
    (changes : forall cursor tree, closes tree (change cursor tree)) :
    (Pass.ofNodes change).Walks (regapping gap child closes) where
  gaps := ofNodes_gaps_regap same change
  list := fun _ _ _ => container_walks_regap (ofNodes_gaps_regap same change)
  before := fun _ _ isNew => .pure ⟨rfl, goesIn_of_isNew isNew, trivial⟩
  after := fun tree state => by
    refine .bind_eq rfl (.bind_eq (Pass.unlessStopped_eq tree (change state.cursor) state) (.pure ?_))
    refine ⟨_, rfl, ?_⟩
    unfold changeFor
    split
    · exact stays tree
    · exact changes state.cursor tree
  accepts := rfl
  acceptsSource := rfl
  dispatch := rfl
  depthBound := rfl
  generations := rfl

/-- A pass over nodes changes gaps alone when its change of a node does. -/
theorem ofNodes_regaps
    {change : TreeCursor -> Tree -> Tree}
    (each : forall cursor tree, Regapped relates tree (change cursor tree)) :
    (Pass.ofNodes change).Regaps relates :=
  Pass.regaps_of_walks relation
    (ofNodes_walks_regap (fun _ _ => relation.refl _) (.refl relation) each)

/-! ## Changes of single nodes -/

theorem regapped_withLeading
    {tree : Tree}
    {leading : Space}
    (related : GapOf relates tree.form.leadingPlace tree.leading leading) :
    Regapped relates tree (tree.withLeading leading) := by
  refine ⟨Tree.bare_revise rfl rfl, fun dialect => ?_⟩
  rw [spaces_pieces, spaces_pieces, Tree.withLeading, Tree.leading_revise, Tree.form_revise]
  exact relation.append related (relation.refl _)

/-- Where a walk has got to does not matter for gaps. -/
def anyView : View := ⟨.never, .root⟩

/-- A form that a walk could have made can stand in place of the one of the node. -/
theorem regapped_withForm
    {tree : Tree}
    {form : Form Tree}
    (walked : WalkedForm (gapRelation relates) anyView tree.form anyView form) :
    Regapped relates tree (tree.withForm form) := by
  have bare := bare_of_walked walked fun _ _ _ related => Regapped.bare related
  refine ⟨Tree.bare_revise rfl bare, fun dialect => ?_⟩
  rw [spaces_pieces, spaces_pieces, Tree.withForm, Tree.leading_revise, Tree.form_revise,
    Form.leadingPlace_eq bare]
  exact relation.append (relation.refl [(tree.form.leadingPlace, tree.leading)])
    (gaps_of_walked dialect relation id walked fun _ _ _ related => Regapped.gaps related)

theorem regappedMarkers_refl (markers : Markers Space) : RegappedMarkers (GapOf relates) markers markers :=
  .refl (fun _ _ => relation.refl _) markers

theorem regappedPadded_refl
    (place : ElementPlace)
    (padded : RightPadded Tree) :
    RegappedPadded (GapOf relates) (Regapped relates) place padded padded :=
  ⟨.refl relation _, relation.refl _, regappedMarkers_refl relation _⟩

omit relation in
theorem walkedElement_of_regapped
    {place : ElementPlace}
    {old new : RightPadded Tree}
    (related : RegappedPadded (GapOf relates) (Regapped relates) place old new) :
    WalkedElement (gapRelation relates) place anyView old anyView new := by
  obtain ⟨element, after, markers⟩ := related
  exact .mk (show (gapRelation relates).child _ _ anyView _ from element)
    (show (gapRelation relates).space _ _ _ anyView _ from after) markers

omit relation in
theorem walkedElements_of_regapped
    {place : ElementPlace}
    {olds news : List (RightPadded Tree)}
    (related : List.Forall₂ (RegappedPadded (GapOf relates) (Regapped relates) place) olds news) :
    WalkedElements (gapRelation relates) place anyView olds anyView news := by
  induction related with
  | nil => exact .nil
  | cons first _ ih => exact .cons (walkedElement_of_regapped first) ih

theorem walkedOption_refl (child : Option Tree) :
    WalkedOption (gapRelation relates).child anyView child anyView child := by
  cases child with
  | none => exact .none
  | some child => exact .some (Regapped.refl relation child)

theorem walkedReceiver_refl (receiver : Option (RightPadded Tree)) :
    WalkedOption (WalkedElement (gapRelation relates) .methodSelect) anyView receiver anyView receiver := by
  cases receiver with
  | none => exact .none
  | some padded => exact .some (walkedElement_of_regapped (regappedPadded_refl relation _ padded))

/-! ## Spacing inside lines -/

section Spacing

variable (each : forall place wanted space, GapOf relates place space (updateSpace wanted space))

include each

theorem regapped_spaceBefore
    (wanted : Bool)
    (tree : Tree) :
    Regapped relates tree (spaceBefore wanted tree) :=
  regapped_withLeading relation (each _ wanted _)

theorem regapped_spaceElements
    (place : ElementPlace)
    (style : BesidePunctuation)
    (within leading : Bool)
    (list : List (RightPadded Tree)) :
    List.Forall₂ (RegappedPadded (GapOf relates) (Regapped relates) place) list
      (spaceElements style within leading list) := by
  induction list generalizing leading with
  | nil => exact .nil
  | cons first rest ih =>
      cases rest with
      | nil =>
          refine .cons ⟨regapped_spaceBefore relation each leading _, each _ _ _, ?_⟩ .nil
          exact regappedMarkers_updateTrailingComma (fun _ _ => relation.refl _) (each _ within) _
      | cons second others =>
          refine .cons ⟨regapped_spaceBefore relation each leading _, each _ _ _, ?_⟩ (ih _)
          exact regappedMarkers_refl relation _

theorem regapped_spaceContainer
    (place : ContainerPlace)
    (style : SpacingStyle)
    (spacing : ListSpacing)
    (list : Container Tree) :
    RegappedContainer (GapOf relates) (Regapped relates) place list (spaceContainer style spacing list) := by
  refine ⟨each _ _ _, ?_, regappedMarkers_refl relation _⟩
  unfold spaceContainer
  dsimp only
  split
  · next only isOnly =>
      rw [isOnly]
      split
      · refine .cons ⟨regapped_spaceBefore relation each _ _, relation.refl _, ?_⟩ .nil
        exact regappedMarkers_refl relation _
      · exact regapped_spaceElements relation each _ _ _ _ _
  · exact regapped_spaceElements relation each _ _ _ _ _

theorem regapped_spaceNode
    (style : SpacingStyle)
    (cursor : TreeCursor)
    (tree : Tree) :
    Regapped relates tree (spaceNode style cursor tree) := by
  have child {view : View} (tree : Tree) : (gapRelation relates).child view tree anyView tree :=
    Regapped.refl relation tree
  have list (place : ContainerPlace) (spacing : ListSpacing) (list : Container Tree) :
      (gapRelation relates).list place anyView list anyView (spaceContainer style spacing list) :=
    regapped_spaceContainer relation each place style spacing list
  have gap (place : SpacePlace) (wanted : Bool) (space : Space) :
      (gapRelation relates).space place anyView space anyView (updateSpace wanted space) :=
    each place wanted space
  have before (wanted : Bool) (tree : Tree) :
      (gapRelation relates).child anyView tree anyView (spaceBefore wanted tree) :=
    regapped_spaceBefore relation each wanted tree
  have markers (markers : Markers Space) : (gapRelation relates).markers anyView markers anyView markers :=
    regappedMarkers_refl relation markers
  unfold spaceNode
  dsimp only
  split
  · next found =>
      refine regapped_withForm relation ?_
      rw [found]
      exact .call (walkedReceiver_refl relation _) (child _) (list _ _ _)
  · next found =>
      refine regapped_withForm relation ?_
      rw [found]
      exact .declaration (walkedOption_refl relation _) (child _) (list _ _ _) (walkedOption_refl relation _)
  · next found =>
      refine regapped_withForm relation ?_
      rw [found]
      exact .collection (list _ _ _)
  · next found =>
      refine regapped_withForm relation ?_
      rw [found]
      exact .assignment (child _) (.mk (gap _ _ _) (before _ _) (markers _))
  · next found =>
      refine regapped_withForm relation ?_
      rw [found]
      exact .binary (child _) (@WalkedOperator.mk _ _ anyView _ _ _ _ _ _ (gap _ _ _) (markers _)) (before _ _)
  · split
    · exact regapped_withLeading relation (each _ _ _)
    · exact .refl relation tree
  · next found =>
      split
      · refine regapped_withForm relation ?_
        rw [found]
        exact .conditional (before _ _) (walkedElement_of_regapped (regappedPadded_refl relation _ _))
          (walkedOption_refl relation _)
      · exact .refl relation tree
  · split
    · exact regapped_withLeading relation (each _ _ _)
    · exact .refl relation tree
  · exact .refl relation tree

end Spacing

/-- Spacing changes gaps alone. -/
theorem spaces_regaps
    (each : forall place wanted space, GapOf relates place space (updateSpace wanted space))
    (style : SpacingStyle) :
    (spaces style).Regaps relates :=
  ofNodes_regaps relation (regapped_spaceNode relation each style)

/-! ## Separating statements -/

section Separating

variable
  (each : forall place space, space.comments = [] ->
    GapOf relates place space (space.withWhitespace ('\n' :: space.whitespace)))

include each

theorem regappedPadded_breakBefore
    (place : ElementPlace)
    (padded : RightPadded Tree) :
    RegappedPadded (GapOf relates) (Regapped relates) place padded (breakBefore padded) := by
  unfold breakBefore
  dsimp only
  split
  · next plain =>
      rw [Bool.and_eq_true, decide_eq_true_eq] at plain
      exact ⟨regapped_withLeading relation (each _ _ plain.1), relation.refl _, regappedMarkers_refl relation _⟩
  · exact regappedPadded_refl relation place padded

theorem regapped_separateStatements
    (place : ElementPlace)
    (dialect : Dialect)
    (separated : Bool)
    (list : List (RightPadded Tree)) :
    List.Forall₂ (RegappedPadded (GapOf relates) (Regapped relates) place) list
      (separateStatements dialect separated list) := by
  induction list generalizing separated with
  | nil => exact .nil
  | cons first rest ih =>
      refine .cons ?_ (ih _)
      split
      · exact regappedPadded_refl relation place first
      · exact regappedPadded_breakBefore relation each place first

theorem regapped_separateNode
    (cursor : TreeCursor)
    (tree : Tree) :
    Regapped relates tree (separateNode cursor tree) := by
  have gap (place : SpacePlace) (space : Space) : (gapRelation relates).space place anyView space anyView space :=
    relation.refl _
  have statements (place : ElementPlace) (dialect : Dialect) (separated : Bool) (list : List (RightPadded Tree)) :
      WalkedElements (gapRelation relates) place anyView list anyView (separateStatements dialect separated list) :=
    walkedElements_of_regapped (regapped_separateStatements relation each place dialect separated list)
  unfold separateNode
  split
  · next found =>
      refine regapped_withForm relation ?_
      rw [found]
      exact .block (statements _ _ _ _) (gap _ _)
  · next found =>
      refine regapped_withForm relation ?_
      rw [found]
      exact .compilationUnit (statements _ _ _ _) (gap _ _)
  · exact .refl relation tree

/-- Separating statements changes gaps alone. -/
theorem minimumViableSpacing_regaps : minimumViableSpacing.Regaps relates :=
  ofNodes_regaps relation (regapped_separateNode relation each)

end Separating

/-! ## Indentation -/

namespace Indents

variable {style : IndentStyle}
variable (each : forall place old new, Moved style place old new -> GapOf relates place old new)

include each

omit relation in
theorem visitSpace_regaps
    (place : SpacePlace)
    (space : Space)
    (state : VisitState Tree PaddingFrame Unit Unit) :
    (Exact.visitSpace style place space).Yields state fun value _ => GapOf relates place space value := by
  by_cases stopped : state.stop.isStopped = true
  · exact ⟨space, state, visitSpace_of_stopped style stopped place space, each _ _ _ (.inl rfl)⟩
  · rw [Bool.not_eq_true] at stopped
    exact ⟨_, _, visitSpace_eq style stopped place space, each _ _ _ (moved_indentedSpace style place space state.cursor)⟩

theorem regappedPadded_paddedAfter
    {columns : ListColumns}
    {target : Nat}
    {stop : StopAfter}
    {isLast : Bool}
    {element : Tree}
    {padded : RightPadded Tree}
    (place : ElementPlace)
    (related : Regapped relates padded.element element) :
    RegappedPadded (GapOf relates) (Regapped relates) place padded
      (paddedAfter style columns target stop isLast element padded) := by
  have moved (place : SpacePlace) (notFirst : place ≠ .compilationUnitPrefix) (column : Nat) (space : Space) :
      GapOf relates place space (Exact.indentTo style column space) :=
    each _ _ _ (.inr ⟨column, by rw [unindented, if_neg notFirst]⟩)
  unfold paddedAfter
  split
  · exact ⟨related, relation.refl _, regappedMarkers_refl relation _⟩
  · refine ⟨related, moved _ (after_ne_unitPrefix place) _ _, ?_⟩
    unfold Exact.indentAfter
    cases isLast
    · exact regappedMarkers_refl relation _
    · exact regappedMarkers_updateTrailingComma (fun _ _ => relation.refl _) (moved _ (by simp) _) _

theorem visitElements_regaps
    {visit : Tree -> PassVisit (Option Tree)}
    {place : ElementPlace}
    {columns : ListColumns}
    {list : List (RightPadded Tree)}
    (children : forall child, child ∈ RightPadded.elements list ->
      WalksTo (gapRelation relates).child child (visit child))
    (isFirst : Bool)
    (target : Nat)
    (state : VisitState Tree PaddingFrame Unit Unit) :
    (Exact.visitElements style visit place columns isFirst target list).Yields state fun list' _ =>
      List.Forall₂ (RegappedPadded (GapOf relates) (Regapped relates) place) list list' := by
  induction list generalizing isFirst target state with
  | nil => exact .pure .nil
  | cons padded rest ih =>
      obtain ⟨_, left, visited, element, rfl, related⟩ :=
        children padded.element (by simp [RightPadded.elements]) (elementState place target state)
      have later := ih fun child member => children child (List.mem_cons_of_mem _ member)
      refine visitElements_cons style visited ((later _ _ _).mono fun list' last others => ?_)
      exact .cons (regappedPadded_paddedAfter relation each place related) others

theorem visitList_regaps
    {visit : Tree -> PassVisit (Option Tree)}
    {place : ContainerPlace}
    {list : Container Tree}
    (children : forall child, child ∈ list.elements -> WalksTo (gapRelation relates).child child (visit child)) :
    Java.Walks ((gapRelation relates).list place) list (Exact.visitList style visit place list) := by
  intro state
  obtain ⟨before, opened, atBefore, gap⟩ :=
    visitSpace_regaps each place.before list.before (state.entered (.padding (.container place)))
  refine visitList_yields style atBefore ((visitElements_regaps relation each children _ _ _).mono ?_)
  intro padded left elements
  exact ⟨gap, elements, regappedMarkers_refl relation _⟩

end Indents

/-- The indentation changes gaps alone. -/
theorem tabsAndIndents_regaps
    {style : IndentStyle}
    (each : forall place old new, Moved style place old new -> GapOf relates place old new) :
    (Exact.tabsAndIndents style).Regaps relates :=
  Pass.regaps_of_walks relation {
    gaps := {
      space := Indents.visitSpace_regaps each
      markers := fun markers state =>
        ⟨markers, state, markers_eq_self rfl markers state, regappedMarkers_refl relation markers⟩ }
    list := fun _ _ _ => Indents.visitList_regaps relation each
    before := fun tree state isNew => by
      exact ⟨some tree, _, Indents.enterNode_eq style tree state, rfl, Indents.goesIn_of_entered style isNew, trivial⟩
    after := fun tree _ => .pure ⟨tree, rfl, .refl relation tree⟩
    accepts := rfl
    acceptsSource := rfl
    dispatch := rfl
    depthBound := rfl
    generations := rfl }

/-! ## Hoisting -/

/-- The form is that of a declaration with a return type. -/
def hasReturnType : Form Tree -> Bool
  | .declaration (some _) _ _ _ => true
  | _ => false

/-- The margins that go before the lines of what is hoisted are of some kind. -/
def HasMargins
    (isMargin : Text -> Prop)
    (tree : Tree) : Prop :=
  forall node, node ∈ tree.nodes -> hasReturnType node.form = true -> isMargin (commonMargin node.leading)

omit relation in
/-- A tree has margins if its root has, and all of its children. -/
theorem hasMargins_iff
    {isMargin : Text -> Prop}
    (tree : Tree) :
    HasMargins isMargin tree ↔ (hasReturnType tree.form = true -> isMargin (commonMargin tree.leading)) ∧
      forall child, child ∈ tree.form.children -> HasMargins isMargin child := by
  obtain ⟨head, form⟩ := tree
  simp only [HasMargins, Tree.nodes_node, List.forall_mem_cons, List.mem_flatMap]
  exact ⟨fun ⟨root, below⟩ => ⟨root, fun child member node inside => below node ⟨child, member, inside⟩⟩,
    fun ⟨root, below⟩ => ⟨root, fun node ⟨child, member, inside⟩ => below child member node inside⟩⟩

omit relation in
theorem hasReturnType_eq
    {old new : Tree}
    (same : new.bare = old.bare) :
    hasReturnType new.form = hasReturnType old.form := by
  have typed (form : Form Tree) : hasReturnType (form.map Tree.bare).bare = hasReturnType form := by
    rcases form with _ | _ | _ | _ | _ | _ | _ | _ | _ | _ | _ | ⟨returnType⟩ | _ | _ | _ | _
    all_goals first | rfl | cases returnType <;> rfl
  have forms : (new.form.map Tree.bare).bare = (old.form.map Tree.bare).bare := by
    rw [Tree.bare_eq, Tree.bare_eq old] at same
    exact congrArg Tree.form same
  rw [← typed, forms, typed]

omit relation in
/-- The gaps of a declaration start with its own leading space and that of its return type. -/
theorem spaces_declaration
    {tree returnType name : Tree}
    {parameters : Container Tree}
    {body : Option Tree}
    (dialect : Dialect)
    (found : tree.form = .declaration (some returnType) name parameters body) :
    Piece.spaces (tree.pieces dialect) =
      [(tree.form.leadingPlace, tree.leading), (returnType.form.leadingPlace, returnType.leading)] ++
        (Piece.spaces (Pieces.form dialect (returnType.form.map (Tree.printed dialect))) ++
          Piece.spaces (Pieces.form dialect
            ((Form.declaration none name parameters body).map (Tree.printed dialect)))) := by
  rw [spaces_pieces, found]
  cases dialect <;>
    simp [Form.map, Pieces.form, Pieces.option, Pieces.symbol, Tree.printed, spaces_pieces _ returnType]

section Hoisting

variable {isMargin : Text -> Prop}
variable
  (hoists : forall place returnPlace target moved, isMargin (commonMargin target) ->
    relates [(place, target), (returnPlace, moved)]
      [(place, concatenate (commonMargin target) target moved), (returnPlace, .empty)])

include hoists

theorem regapped_hoistReturnType
    {tree : Tree}
    (margin : hasReturnType tree.form = true -> isMargin (commonMargin tree.leading)) :
    Regapped relates tree (hoistReturnType tree) := by
  unfold hoistReturnType
  split
  · next returnType name parameters body found =>
      rw [found] at margin
      split
      · exact .refl relation tree
      · let leading := concatenate (commonMargin tree.leading) tree.leading returnType.leading
        let bareType := returnType.withLeading .empty
        have sameType : bareType.bare = returnType.bare := Tree.bare_revise rfl rfl
        have sameForm : ((Form.declaration (some bareType) name parameters body).map Tree.bare).bare =
            (tree.form.map Tree.bare).bare := by
          rw [found]
          simp only [Form.map, Option.map_some, sameType]
        refine ⟨Tree.bare_revise rfl sameForm, fun dialect => ?_⟩
        rw [spaces_declaration dialect found, spaces_declaration dialect (Tree.form_revise ..),
          Tree.leading_revise, Tree.form_revise, Form.leadingPlace_eq sameForm, Tree.withLeading,
          Tree.leading_revise, Tree.form_revise]
        exact relation.append (hoists _ _ _ _ (margin rfl)) (relation.refl _)
  · exact .refl relation tree

/-- Hoisting changes gaps alone, if the margins of all declarations are of the right kind. -/
theorem normalizeFormat_regaps
    {tree : Tree}
    (margins : HasMargins isMargin tree)
    (stopAfter : Option Stamp)
    (parent : TreeCursor) :
    exists new, normalizeFormat.run stopAfter parent tree = .ok (some new) ∧ Regapped relates tree new := by
  let gap : SpacePlace -> Space -> Space -> Prop := fun _ old new => new = old
  let child : Tree -> Tree -> Prop := fun old new => HasMargins isMargin old -> Regapped relates old new
  let closes : Tree -> Tree -> Prop := fun old new => new = old ∨ new = hoistReturnType old
  have walks : Visitor.Walks normalizeFormat (regapping gap child closes) :=
    ofNodes_walks_regap (fun _ _ => rfl) (fun _ => .inl rfl) fun _ _ => .inr rfl
  have node (view : View) (old : Tree) (left : View) (new : Tree)
      (walked : WalkedNode (regapping gap child closes) view old left new) :
      child old new := by
    intro margins
    obtain ⟨root, below⟩ := (hasMargins_iff old).1 margins
    have children (tree : Tree) (member : tree ∈ old.children) (new : Tree) (related : child tree new) :
        Regapped relates tree new :=
      related (below tree member)
    have single {place : SpacePlace} {old new : Space} (same : gap place old new) :
        relates [(place, old)] [(place, new)] := by
      obtain rfl : new = old := same
      exact relation.refl _
    rcases regapped_of_walked relation single walked children with rfl | ⟨middle, parts, rfl | rfl⟩
    · exact .refl relation _
    · exact parts.toRegapped
    · have leading : middle.leading = old.leading := parts.leading
      refine parts.toRegapped.trans relation (regapped_hoistReturnType relation hoists fun isTyped => ?_)
      rw [leading]
      exact root (by rw [← hasReturnType_eq parts.bare, isTyped])
  obtain ⟨_, left, runs, new, rfl, regapped⟩ :=
    Visitor.run_walks walks node tree (.start parent (.ofTarget stopAfter) () ())
  exact ⟨new, congrArg Prod.fst runs, regapped margins⟩

end Hoisting

end Format
end Lossless
