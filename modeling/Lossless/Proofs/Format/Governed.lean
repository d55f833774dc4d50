import Lossless.Proofs.Format.Idempotent
import Lossless.Proofs.Format.Regaps

/-!
# The spaces that a style governs

Each space of a tree is listed with the blank that a spacing style wants in it, or as one that no style governs.
Spacing makes of a governed space that has blanks alone just the blank that is wanted, and leaves every other one.
-/

namespace Lossless
namespace Format

open Java

variable {α β : Type}

/-! ## What a style wants -/

/-- A space with the blank that the style wants in it; without one, no style governs the space. -/
abbrev Governed := Option Bool × Space

/-- A space that no style governs. -/
def ungoverned (space : Space) : Governed := (none, space)

/-- The blank on both sides of an operator. A style says nothing of logical operators, which always have one. -/
def operatorBlank (style : AroundOperators) : Operator -> Bool
  | .addition | .subtraction => style.additive
  | .multiplication | .division | .remainder => style.multiplicative
  | .equal | .notEqual => style.equality
  | .lessThan | .lessThanOrEqual | .greaterThan | .greaterThanOrEqual => style.relational
  | .conjunction | .disjunction => true

/-- The blank before the parenthesis of a condition, which is no matter of style in Python. -/
def conditionBlank
    (style : SpacingStyle)
    (dialect : Dialect)
    (condition : Tree) : Option Bool :=
  if dialect = .java ∧ condition.form.isParentheses = true then some style.beforeParentheses.conditional else none

/-- What is known below a node, given what is known of the nodes around it. -/
def SpacingContext.inside
    (around : SpacingContext)
    (form : Form α) : SpacingContext where
  dialect :=
    match form with
    | .compilationUnit dialect .. => dialect
    | _ => around.dialect
  owned :=
    match form with
    | .declaration .. | .conditional .. | .otherwise .. => true
    | _ => false

section Parts

/- `gaps` lists the spaces of a part, given the blank that is wanted before it. -/
variable (style : SpacingStyle) (gaps : Option Bool -> α -> List Governed)

/-- The spaces of an element beside which no style governs anything. -/
def plainElement
    (wanted : Option Bool)
    (padded : RightPadded α) : List Governed :=
  gaps wanted padded.element ++ ungoverned padded.after :: padded.markers.suffixes.map ungoverned

/-- The spaces of an operand, with the same blank on both sides of its operator. -/
def operand
    (wanted : Option Bool)
    (padded : LeftPadded α) : List Governed :=
  (wanted, padded.before) :: gaps wanted padded.element ++ padded.markers.suffixes.map ungoverned

/-- The spaces after the commas behind the last element, of which there is one in what can be read. -/
def lastSuffixes
    (within : Bool)
    (markers : Markers Space) : List Governed :=
  match markers.suffixes with
  | [] => []
  | first :: rest => (some within, first) :: rest.map ungoverned

/--
The spaces of the elements of a list, the first of which has the blank `leading` before it: the delimiters stand right
before the first one and behind the last one, or behind the comma that follows it.
-/
def listElements
    (within leading : Bool) : List (RightPadded α) -> List Governed
  | [] => []
  | [last] =>
      let after := if last.markers.suffixes = [] then within else style.punctuation.beforeComma
      gaps (some leading) last.element ++ (some after, last.after) :: lastSuffixes within last.markers
  | padded :: rest =>
      gaps (some leading) padded.element ++ (some style.punctuation.beforeComma, padded.after) ::
        (padded.markers.suffixes.map ungoverned ++ listElements within style.punctuation.afterComma rest)

/-- The spaces of the elements of a delimited list. An empty node that is the only element stands for no elements. -/
def elementGaps
    (spacing : ListSpacing)
    (isEmpty : α -> Bool) : List (RightPadded α) -> List Governed
  | [only] =>
      if isEmpty only.element then plainElement gaps (some spacing.withinEmpty) only
      else listElements style gaps spacing.within spacing.within [only]
  | padded => listElements style gaps spacing.within spacing.within padded

/-- The spaces of a delimited list. -/
def listGaps
    (spacing : ListSpacing)
    (isEmpty : α -> Bool)
    (list : Container α) : List Governed :=
  (some spacing.before, list.before) :: elementGaps style gaps spacing isEmpty list.padded ++
    list.markers.suffixes.map ungoverned

/-- The spaces of a form, given the trees that its children are. -/
def formGaps
    (dialect : Dialect)
    (tree : α -> Tree) : Form α -> List Governed
  | .compilationUnit _ _ statements eof => statements.flatMap (plainElement gaps none) ++ [ungoverned eof]
  | .block statements closing => statements.flatMap (plainElement gaps none) ++ [ungoverned closing]
  | .conditional condition consequence alternative =>
      gaps (conditionBlank style dialect (tree condition)) condition ++ plainElement gaps none consequence ++
        alternative.toList.flatMap (gaps none)
  | .otherwise body => plainElement gaps none body
  | .returns value => value.toList.flatMap (gaps none)
  | .assignment target value _ => gaps none target ++ operand gaps (some style.aroundOperators.assignment) value
  | .binary left operator right _ =>
      let wanted := some (operatorBlank style.aroundOperators operator.element)
      gaps none left ++ operand (fun _ _ => []) wanted operator ++ gaps wanted right
  | .identifier .. => []
  | .literal .. => []
  | .fieldAccess target name _ => gaps none target ++ operand gaps none name
  | .call receiver name arguments _ =>
      let spacing : ListSpacing := ⟨style.beforeParentheses.call, style.within.call, style.within.emptyCall⟩
      receiver.toList.flatMap (plainElement gaps none) ++ gaps none name ++
        listGaps style gaps spacing (fun part => (tree part).form.isEmpty) arguments
  | .declaration returnType name parameters body =>
      let spacing : ListSpacing :=
        ⟨style.beforeParentheses.declaration, style.within.declaration, style.within.emptyDeclaration⟩
      returnType.toList.flatMap (gaps none) ++ gaps none name ++
        listGaps style gaps spacing (fun part => (tree part).form.isEmpty) parameters ++ body.toList.flatMap (gaps none)
  | .parentheses inner => plainElement gaps none inner
  | .collection _ elements _ =>
      listGaps style gaps ⟨false, style.within.brackets, false⟩ (fun part => (tree part).form.isEmpty) elements
  | .empty => []
  | .unknown _ => []

end Parts

/-- The spaces of a tree without the one before it. -/
def gapsBelow
    (style : SpacingStyle)
    (around : SpacingContext)
    (tree : Tree) : List Governed :=
  Tree.recurse (fun head (form : Form (Tree × (SpacingContext -> List Governed))) (around : SpacingContext) =>
    let inside := around.inside form
    head.markers.suffixes.map ungoverned ++
      formGaps style (fun wanted child =>
        (wanted.or (ownBlank style inside child.1.form), child.1.leading) :: child.2 inside) around.dialect Prod.fst form)
    tree around

/--
Every space of a tree, with the blank that is wanted in it. Before a node, what the node around it wants comes before
what is wanted before such a node anyway.
-/
def governedGaps
    (style : SpacingStyle)
    (around : SpacingContext)
    (wanted : Option Bool)
    (tree : Tree) : List Governed :=
  (wanted.or (ownBlank style around tree.form), tree.leading) :: gapsBelow style around tree

/-- Of a space that the style governs and that has blanks alone, just the blank is made that is wanted. -/
structure IsSpaced (old new : Governed) : Prop where
  wanted : new.1 = old.1
  blank : forall wanted, old.1 = some wanted -> old.2.comments = [] ->
    (forall char, char ∈ old.2.whitespace -> char = ' ') ->
      new.2.comments = [] ∧ new.2.whitespace = if wanted then [' '] else []
  other : old.1 = none ∨ old.2.comments ≠ [] ∨ (exists char, char ∈ old.2.whitespace ∧ char ≠ ' ') -> new.2 = old.2

/-! ## Every space is listed -/

section Parts

variable {style : SpacingStyle} {gaps : Option Bool -> α -> List Governed} {below : α -> List Space}

theorem map_snd_ungoverned (spaces : List Space) : (spaces.map ungoverned).map Prod.snd = spaces := by
  rw [List.map_map]
  exact List.map_id spaces

theorem map_snd_lastSuffixes
    (within : Bool)
    (markers : Markers Space) :
    (lastSuffixes within markers).map Prod.snd = markers.suffixes := by
  unfold lastSuffixes
  cases markers.suffixes with
  | nil => rfl
  | cons first rest => rw [List.map_cons, map_snd_ungoverned]

theorem listElements_cons
    {within leading : Bool}
    {padded : RightPadded α}
    {rest : List (RightPadded α)}
    (more : rest ≠ []) :
    listElements style gaps within leading (padded :: rest) =
      gaps (some leading) padded.element ++ (some style.punctuation.beforeComma, padded.after) ::
        (padded.markers.suffixes.map ungoverned ++ listElements style gaps within style.punctuation.afterComma rest) := by
  cases rest with
  | nil => exact absurd rfl more
  | cons => rfl

variable (spaces : forall wanted part, (gaps wanted part).map Prod.snd = below part)

include spaces

theorem map_snd_plainElement
    (wanted : Option Bool)
    (padded : RightPadded α) :
    (plainElement gaps wanted padded).map Prod.snd = padded.allSpaces below := by
  rw [plainElement, List.map_append, List.map_cons, spaces, map_snd_ungoverned]
  rfl

theorem map_snd_operand
    (wanted : Option Bool)
    (padded : LeftPadded α) :
    (operand gaps wanted padded).map Prod.snd = padded.allSpaces below := by
  rw [operand, List.map_append, List.map_cons, spaces, map_snd_ungoverned]
  rfl

theorem map_snd_listElements
    (within leading : Bool)
    (list : List (RightPadded α)) :
    (listElements style gaps within leading list).map Prod.snd = list.flatMap (·.allSpaces below) := by
  induction list generalizing leading with
  | nil => rfl
  | cons first rest ih =>
      cases rest with
      | nil =>
          rw [listElements, List.map_append, List.map_cons, spaces, map_snd_lastSuffixes, List.flatMap_singleton]
          rfl
      | cons second others =>
          rw [listElements_cons (by simp), List.map_append, List.map_cons, List.map_append, spaces, map_snd_ungoverned, ih,
            List.flatMap_cons]
          simp [RightPadded.allSpaces]

theorem map_snd_elementGaps
    (spacing : ListSpacing)
    (isEmpty : α -> Bool)
    (list : List (RightPadded α)) :
    (elementGaps style gaps spacing isEmpty list).map Prod.snd = list.flatMap (·.allSpaces below) := by
  unfold elementGaps
  split
  · next only =>
      split
      · rw [map_snd_plainElement spaces, List.flatMap_singleton]
      · exact map_snd_listElements spaces ..
  · exact map_snd_listElements spaces ..

theorem map_snd_listGaps
    (spacing : ListSpacing)
    (isEmpty : α -> Bool)
    (list : Container α) :
    (listGaps style gaps spacing isEmpty list).map Prod.snd = list.allSpaces below := by
  rw [listGaps, List.map_append, List.map_cons, map_snd_ungoverned, map_snd_elementGaps spaces]
  rfl

theorem map_snd_formGaps
    (dialect : Dialect)
    (tree : α -> Tree)
    (form : Form α) :
    (formGaps style gaps dialect tree form).map Prod.snd = form.allSpaces below := by
  have element := map_snd_plainElement spaces none
  cases form with
  | binary left operator right typeTag =>
      have here (wanted : Option Bool) :
          (operand (fun _ (_ : Operator) => []) wanted operator).map Prod.snd = operator.allSpaces fun _ => [] :=
        map_snd_operand (fun _ _ => rfl) wanted operator
      simp [formGaps, Form.allSpaces, spaces, here]
  | _ =>
      simp [formGaps, Form.allSpaces, List.map_flatMap, spaces, element, map_snd_operand spaces, map_snd_listGaps spaces]
      try rfl

end Parts

section Lists

variable {style : SpacingStyle} {gaps : Option Bool -> α -> List Governed}

theorem elementGaps_of_elements
    {spacing : ListSpacing}
    {isEmpty : α -> Bool}
    {list : List (RightPadded α)}
    (areElements : forall only, list = [only] -> isEmpty only.element = false) :
    elementGaps style gaps spacing isEmpty list = listElements style gaps spacing.within spacing.within list := by
  match list, areElements with
  | [], _ => rfl
  | [only], areElements => exact if_neg (by simp [areElements only rfl])
  | _ :: _ :: _, _ => rfl

end Lists

section Maps

variable {style : SpacingStyle} (gaps : Option Bool -> β -> List Governed) (change : α -> β)

theorem listElements_map
    (within leading : Bool)
    (list : List (RightPadded α)) :
    listElements style gaps within leading (list.map (·.map change)) =
      listElements style (fun wanted part => gaps wanted (change part)) within leading list := by
  induction list generalizing leading with
  | nil => rfl
  | cons first rest ih =>
      cases rest with
      | nil => rfl
      | cons second others =>
          rw [List.map_cons, listElements_cons (by simp), listElements_cons (by simp), ih]
          rfl

theorem listGaps_map
    (spacing : ListSpacing)
    (isEmpty : β -> Bool)
    (list : Container α) :
    listGaps style gaps spacing isEmpty (list.map change) =
      listGaps style (fun wanted part => gaps wanted (change part)) spacing (fun part => isEmpty (change part)) list := by
  obtain ⟨before, padded, markers⟩ := list
  have elements : listElements style gaps spacing.within spacing.within (padded.map (·.map change)) =
      listElements style (fun wanted part => gaps wanted (change part)) spacing.within spacing.within padded :=
    listElements_map gaps change spacing.within spacing.within padded
  match padded, elements with
  | [], _ => rfl
  | [only], _ => rfl
  | _ :: _ :: _, elements =>
      refine congrArg (fun list => (some spacing.before, before) :: list ++ markers.suffixes.map ungoverned) elements

theorem formGaps_map
    (dialect : Dialect)
    (tree : β -> Tree)
    (form : Form α) :
    formGaps style gaps dialect tree (form.map change) =
      formGaps style (fun wanted part => gaps wanted (change part)) dialect (fun part => tree (change part)) form := by
  have element (padded : RightPadded α) : plainElement gaps none (padded.map change) =
      plainElement (fun wanted part => gaps wanted (change part)) none padded := rfl
  have operand (wanted : Option Bool) (padded : LeftPadded α) : operand gaps wanted (padded.map change) =
      operand (fun wanted part => gaps wanted (change part)) wanted padded := rfl
  cases form with
  | conditional _ _ alternative => cases alternative <;> simp [Form.map, formGaps, element]
  | returns value => cases value <;> simp [Form.map, formGaps]
  | call receiver => cases receiver <;> simp [Form.map, formGaps, element, listGaps_map]
  | declaration returnType _ _ body =>
      cases returnType <;> cases body <;> simp [Form.map, formGaps, listGaps_map]
  | _ => simp [Form.map, formGaps, element, operand, listGaps_map, List.flatMap_map]

end Maps

section Trees

variable {style : SpacingStyle} {around : SpacingContext}

theorem gapsBelow_eq (tree : Tree) :
    gapsBelow style around tree = tree.markers.suffixes.map ungoverned ++
      formGaps style (governedGaps style (around.inside tree.form)) around.dialect id tree.form := by
  obtain ⟨head, form⟩ := tree
  have inside (change : Tree -> Tree × (SpacingContext -> List Governed)) :
      around.inside (form.map change) = around.inside form := by
    cases form <;> rfl
  rw [gapsBelow, Tree.recurse_node]
  dsimp only
  rw [inside, formGaps_map]
  rfl

theorem governedGaps_spaces
    (wanted : Option Bool)
    (tree : Tree) :
    (governedGaps style around wanted tree).map Prod.snd = tree.allSpaces := by
  induction tree using Tree.induction generalizing around wanted with
  | step head form ih =>
      let inside := around.inside form
      have leads (wanted : Option Bool) (part : Tree) : (governedGaps style inside wanted part).map Prod.snd =
          (governedGaps style inside none part).map Prod.snd := rfl
      have children : (formGaps style (governedGaps style inside) around.dialect id form).map Prod.snd =
          form.allSpaces Tree.allSpaces :=
        (map_snd_formGaps leads around.dialect id form).trans
          (Form.allSpaces_congr fun part isChild => ih part isChild none)
      have all : (Java.Tree.node head form).allSpaces =
          head.leading :: (head.markers.suffixes ++ form.allSpaces Tree.allSpaces) :=
        Tree.allSpaces_eq _
      rw [governedGaps, List.map_cons, gapsBelow_eq, List.map_append, map_snd_ungoverned, all, ← children]
      rfl

end Trees

/-! ## What spacing makes of them -/

/-- The space, with the blank that is wanted. -/
def spaceGap (gap : Governed) : Governed := (gap.1, spaceWith gap.1 gap.2)

theorem isSpaced_spaceGap (gap : Governed) : IsSpaced gap (spaceGap gap) := by
  obtain ⟨wanted, space⟩ := gap
  cases wanted with
  | none => exact ⟨rfl, fun _ none => (by cases none), fun _ => rfl⟩
  | some wanted =>
      refine ⟨rfl, fun blank same noComments blanks => ?_, fun other => ?_⟩
      · obtain rfl := Option.some.inj same
        have written : updateSpace wanted space = if wanted then .single else .empty := if_pos <| by
          simpa using ⟨noComments, blanks⟩
        change (updateSpace wanted space).comments = [] ∧ (updateSpace wanted space).whitespace = _
        rw [written]
        cases wanted <;> exact ⟨rfl, rfl⟩
      · refine if_neg fun isBlank => ?_
        rw [Bool.and_eq_true, decide_eq_true_eq, List.all_eq_true] at isBlank
        obtain ⟨noComments, blanks⟩ := isBlank
        rcases other with none | comments | ⟨char, member, notBlank⟩
        · cases none
        · exact comments noComments
        · exact notBlank (by simpa using blanks char member)

theorem map_spaceGap_ungoverned (spaces : List Space) :
    (spaces.map ungoverned).map spaceGap = spaces.map ungoverned := by
  rw [List.map_map]
  rfl

theorem operatorBlank_eq
    (style : AroundOperators)
    (operator : Operator) :
    aroundOperator style operator = operatorBlank style operator := by
  cases operator <;> rfl

theorem lastSuffixes_updateTrailingComma
    (within : Bool)
    (markers : Markers Space) :
    lastSuffixes within (updateTrailingComma (updateSpace within) markers) =
      (lastSuffixes within markers).map spaceGap := by
  have suffixes : (updateTrailingComma (updateSpace within) markers).suffixes =
      markers.suffixes.modifyHead (updateSpace within) :=
    findAll_updateTrailingComma ..
  unfold lastSuffixes
  rw [suffixes]
  cases markers.suffixes with
  | nil => rfl
  | cons first rest =>
      rw [List.modifyHead_cons, List.map_cons, map_spaceGap_ungoverned]
      rfl

theorem hasTrailingComma_iff (padded : RightPadded Tree) :
    hasTrailingComma padded = true ↔ padded.markers.suffixes ≠ [] := by
  have first : padded.markers.suffixes.head? = padded.markers.findFirst? Fact.trailingComma? := List.head?_filterMap
  rw [hasTrailingComma, ← first, List.isSome_head?]

section Spaced

variable (style : SpacingStyle) (around : SpacingContext)

/-- What spacing makes of a node, whether or not what is around it then spaces it as well. -/
structure IsSpacedTree (old new : Tree) : Prop where
  isEmpty : new.form.isEmpty = old.form.isEmpty
  isParentheses : new.form.isParentheses = old.form.isParentheses
  alone : governedGaps style around none new = (governedGaps style around none old).map spaceGap
  led : forall wanted, governedGaps style around (some wanted) (spaceBefore wanted new) =
    (governedGaps style around (some wanted) old).map spaceGap

end Spaced

section Forms

variable {style : SpacingStyle} {around : SpacingContext} {replace : Tree -> Tree}

theorem plainElement_alone
    {padded : RightPadded Tree}
    (spaced : IsSpacedTree style around padded.element (replace padded.element)) :
    plainElement (governedGaps style around) none (padded.map replace) =
      (plainElement (governedGaps style around) none padded).map spaceGap := by
  rw [plainElement, plainElement, List.map_append, List.map_cons, map_spaceGap_ungoverned, ← spaced.alone]
  rfl

theorem plainElement_led
    {padded : RightPadded Tree}
    (spaced : IsSpacedTree style around padded.element (replace padded.element))
    (wanted : Bool) :
    plainElement (governedGaps style around) (some wanted)
        ⟨spaceBefore wanted (replace padded.element), padded.after, padded.markers⟩ =
      (plainElement (governedGaps style around) (some wanted) padded).map spaceGap := by
  rw [plainElement, plainElement, List.map_append, List.map_cons, map_spaceGap_ungoverned, ← spaced.led]
  rfl

theorem operand_alone
    {padded : LeftPadded Tree}
    (spaced : IsSpacedTree style around padded.element (replace padded.element)) :
    operand (governedGaps style around) none (padded.map replace) =
      (operand (governedGaps style around) none padded).map spaceGap := by
  rw [operand, operand, List.map_append, List.map_cons, map_spaceGap_ungoverned, ← spaced.alone]
  rfl

theorem operand_led
    {padded : LeftPadded Tree}
    (spaced : IsSpacedTree style around padded.element (replace padded.element))
    (wanted : Bool) :
    operand (governedGaps style around) (some wanted)
        ⟨updateSpace wanted padded.before, spaceBefore wanted (replace padded.element), padded.markers⟩ =
      (operand (governedGaps style around) (some wanted) padded).map spaceGap := by
  rw [operand, operand, List.map_append, List.map_cons, map_spaceGap_ungoverned, ← spaced.led]
  rfl

theorem statements_alone
    {list : List (RightPadded Tree)}
    (spaced : forall part, part ∈ RightPadded.elements list -> IsSpacedTree style around part (replace part)) :
    (list.map (·.map replace)).flatMap (plainElement (governedGaps style around) none) =
      (list.flatMap (plainElement (governedGaps style around) none)).map spaceGap := by
  rw [List.flatMap_map, List.map_flatMap]
  refine List.flatMap_congr fun padded member => ?_
  exact plainElement_alone (spaced _ (List.mem_map_of_mem member))

theorem option_alone
    {part : Option Tree}
    (spaced : forall tree, tree ∈ part.toList -> IsSpacedTree style around tree (replace tree)) :
    (part.map replace).toList.flatMap (governedGaps style around none) =
      (part.toList.flatMap (governedGaps style around none)).map spaceGap := by
  cases part with
  | none => rfl
  | some tree =>
      simpa using (spaced tree (List.mem_singleton_self _)).alone

theorem listElements_spaceElements
    (within leading : Bool)
    {list : List (RightPadded Tree)}
    (spaced : forall part, part ∈ RightPadded.elements list -> IsSpacedTree style around part (replace part)) :
    listElements style (governedGaps style around) within leading
        (spaceElements style.punctuation within leading (list.map (·.map replace))) =
      (listElements style (governedGaps style around) within leading list).map spaceGap := by
  induction list generalizing leading with
  | nil => rfl
  | cons first rest ih =>
      obtain ⟨here, later⟩ := List.forall_mem_cons.1 spaced
      cases rest with
      | nil =>
          have comma : hasTrailingComma (first.map replace) = true ↔ first.markers.suffixes ≠ [] := hasTrailingComma_iff _
          have last : spaceElements style.punctuation within leading ([first].map (·.map replace)) =
              [⟨spaceBefore leading (replace first.element),
                updateSpace (if first.markers.suffixes = [] then within else style.punctuation.beforeComma) first.after,
                updateTrailingComma (updateSpace within) first.markers⟩] := by
            simp only [List.map_cons, List.map_nil, spaceElements, comma, ite_not]
            rfl
          have still : (updateTrailingComma (updateSpace within) first.markers).suffixes = [] ↔
              first.markers.suffixes = [] := by
            rw [Markers.suffixes, findAll_updateTrailingComma, List.modifyHead_eq_nil_iff, Markers.suffixes]
          rw [last]
          simp only [listElements, here.led, lastSuffixes_updateTrailingComma, still, List.map_append, List.map_cons]
          rfl
      | cons second others =>
          have more : spaceElements style.punctuation within style.punctuation.afterComma
              ((second :: others).map (·.map replace)) ≠ [] := by
            cases others <;> simp [spaceElements]
          have step : spaceElements style.punctuation within leading ((first :: second :: others).map (·.map replace)) =
              ⟨spaceBefore leading (replace first.element), updateSpace style.punctuation.beforeComma first.after,
                first.markers⟩ :: spaceElements style.punctuation within style.punctuation.afterComma
                  ((second :: others).map (·.map replace)) :=
            rfl
          rw [step, listElements_cons more, listElements_cons (by simp), ih _ later, here.led, List.map_append,
            List.map_cons, List.map_append, map_spaceGap_ungoverned]
          rfl

theorem listGaps_spaceContainer
    (spacing : ListSpacing)
    {list : Container Tree}
    (spaced : forall part, part ∈ list.elements -> IsSpacedTree style around part (replace part)) :
    listGaps style (governedGaps style around) spacing (·.form.isEmpty)
        (spaceContainer style spacing (list.map replace)) =
      (listGaps style (governedGaps style around) spacing (·.form.isEmpty) list).map spaceGap := by
  obtain ⟨before, list, markers⟩ := list
  have close (olds news : List Governed) (same : news = olds.map spaceGap) :
      (some spacing.before, updateSpace spacing.before before) :: news ++ markers.suffixes.map ungoverned =
        ((some spacing.before, before) :: olds ++ markers.suffixes.map ungoverned).map spaceGap := by
    rw [same, List.map_append, List.map_cons, map_spaceGap_ungoverned]
    rfl
  have kinds (padded : RightPadded Tree) (member : padded.element ∈ Container.elements ⟨before, list, markers⟩) :
      isEmptyElement (padded.map replace) = isEmptyElement padded := by
    rw [isEmptyElement_eq, isEmptyElement_eq, RightPadded.element_map, (spaced _ member).isEmpty]
  by_cases sole : exists only, list = [only] ∧ isEmptyElement only = true
  · obtain ⟨only, rfl, isEmpty⟩ := sole
    have here := spaced only.element (List.mem_singleton_self _)
    have isEmptyNew := (kinds only (List.mem_singleton_self _)).trans isEmpty
    rw [Container.map, List.map_singleton, spaceContainer_of_isEmpty isEmptyNew]
    refine close _ _ ?_
    have old : only.element.form.isEmpty = true := (isEmptyElement_eq only).symm.trans isEmpty
    have new : (spaceBefore spacing.withinEmpty (replace only.element)).form.isEmpty = true := by
      rw [spaceBefore, Tree.form_withLeading, here.isEmpty, old]
    have plain (padded : RightPadded Tree) (isEmpty : padded.element.form.isEmpty = true) :
        elementGaps style (governedGaps style around) spacing (·.form.isEmpty) [padded] =
          plainElement (governedGaps style around) (some spacing.withinEmpty) padded :=
      if_pos isEmpty
    exact (plain _ new).trans ((plainElement_led here _).trans (congrArg _ (plain only old).symm))
  · have areElements (only : RightPadded Tree) (same : list = [only]) : isEmptyElement only = false := by
      rw [← Bool.not_eq_true]
      exact fun isEmpty => sole ⟨only, same, isEmpty⟩
    have areStill (only : RightPadded Tree) (same : list.map (·.map replace) = [only]) : isEmptyElement only = false := by
      obtain ⟨old, rfl, rfl⟩ := List.map_eq_singleton_iff.1 same
      rw [kinds old (List.mem_singleton_self _), areElements old rfl]
    rw [Container.map, spaceContainer_of_elements areStill]
    refine close _ _ ?_
    have areSpaced (only : RightPadded Tree)
        (same : spaceElements style.punctuation spacing.within spacing.within (list.map (·.map replace)) = [only]) :
        only.element.form.isEmpty = false := by
      rcases list with _ | ⟨first, _ | ⟨second, others⟩⟩
      · cases same
      · rw [← List.singleton_inj.1 same, spaceBefore, Tree.form_withLeading, ← isEmptyElement_eq, areStill _ rfl]
      · cases others <;> simp [spaceElements] at same
    rw [elementGaps_of_elements areSpaced, listElements_spaceElements spacing.within spacing.within spaced,
      elementGaps_of_elements fun only same => (isEmptyElement_eq only).symm.trans (areElements only same)]

theorem formGaps_spacedForm
    (dialect : Dialect)
    {form : Form Tree}
    (spaced : forall part, part ∈ form.children -> IsSpacedTree style around part (replace part)) :
    formGaps style (governedGaps style around) dialect id (spacedForm style dialect (form.map replace)) =
      (formGaps style (governedGaps style around) dialect id form).map spaceGap := by
  cases form with
  | compilationUnit dialect source statements eof => 
      change _ ++ [ungoverned eof] = (statements.flatMap _ ++ [ungoverned eof]).map spaceGap
      rw [statements_alone spaced, List.map_append]
      rfl
  | block statements closing => 
      change _ ++ [ungoverned closing] = (statements.flatMap _ ++ [ungoverned closing]).map spaceGap
      rw [statements_alone spaced, List.map_append]
      rfl
  | conditional condition consequence alternative =>
      obtain ⟨atCondition, others⟩ := List.forall_mem_cons.1 spaced
      obtain ⟨atConsequence, atAlternative⟩ := List.forall_mem_cons.1 others
      have close {first old : List Governed} (same : first = old.map spaceGap) :
          first ++ plainElement (governedGaps style around) none (consequence.map replace) ++
              (alternative.map replace).toList.flatMap (governedGaps style around none) =
            (old ++ plainElement (governedGaps style around) none consequence ++
              alternative.toList.flatMap (governedGaps style around none)).map spaceGap := by
        rw [same, plainElement_alone atConsequence, option_alone atAlternative, List.map_append, List.map_append]
      by_cases governed : dialect = .java ∧ condition.form.isParentheses = true
      · let wanted := style.beforeParentheses.conditional
        have still : (decide (dialect = .java) && isParentheses (replace condition)) = true := by
          rw [isParentheses_eq, atCondition.isParentheses]
          simpa using governed
        have stillSpaced : dialect = .java ∧ (spaceBefore wanted (replace condition)).form.isParentheses = true := by
          rw [spaceBefore, Tree.form_withLeading, atCondition.isParentheses]
          exact governed
        rw [Form.map, spacedForm, if_pos still]
        refine close ?_
        rw [conditionBlank, conditionBlank, id, id, if_pos stillSpaced, if_pos governed]
        exact atCondition.led wanted
      · have still : ¬ (decide (dialect = .java) && isParentheses (replace condition)) = true := by
          rw [isParentheses_eq, atCondition.isParentheses]
          simpa using governed
        rw [Form.map, spacedForm, if_neg still]
        refine close ?_
        rw [conditionBlank, conditionBlank, id, id, atCondition.isParentheses, if_neg governed]
        exact atCondition.alone
  | otherwise body => exact plainElement_alone (spaced _ (List.mem_singleton_self _))
  | returns value => exact option_alone spaced
  | assignment target value typeTag =>
      obtain ⟨atTarget, others⟩ := List.forall_mem_cons.1 spaced
      have atValue := others _ (List.mem_singleton_self _)
      change _ ++ operand _ _ _ = (_ ++ operand _ _ _).map spaceGap
      rw [List.map_append, ← atTarget.alone, ← operand_led atValue]
      rfl
  | binary left operator right typeTag =>
      obtain ⟨atLeft, others⟩ := List.forall_mem_cons.1 spaced
      have atRight := others _ (List.mem_singleton_self _)
      let wanted := operatorBlank style.aroundOperators operator.element
      have spacedOperator : operand (fun _ (_ : Operator) => []) (some wanted)
            { operator with before := updateSpace wanted operator.before } =
          (operand (fun _ (_ : Operator) => []) (some wanted) operator).map spaceGap := by
        rw [operand, operand, List.map_append, List.map_cons, map_spaceGap_ungoverned]
        rfl
      change formGaps _ _ _ _
        (.binary _ ⟨updateSpace (aroundOperator _ _) _, _, _⟩ (spaceBefore (aroundOperator _ _) _) _) = _
      rw [operatorBlank_eq]
      change _ ++ _ ++ governedGaps _ _ (some wanted) _ = (_ ++ _ ++ governedGaps _ _ (some wanted) _).map spaceGap
      rw [List.map_append, List.map_append, ← atLeft.alone, ← atRight.led, ← spacedOperator]
  | identifier name typeTag => rfl
  | literal source typeTag => rfl
  | fieldAccess target name typeTag =>
      obtain ⟨atTarget, others⟩ := List.forall_mem_cons.1 spaced
      have atName := others _ (List.mem_singleton_self _)
      change _ ++ operand _ none _ = (_ ++ operand _ none _).map spaceGap
      rw [List.map_append, ← atTarget.alone, ← operand_alone atName]
  | call receiver name arguments typeTag =>
      obtain ⟨inReceiver, others⟩ := List.forall_mem_append.1 spaced
      obtain ⟨atName, inArguments⟩ := List.forall_mem_cons.1 others
      have atReceiver : (receiver.map (·.map replace)).toList.flatMap (plainElement (governedGaps style around) none) =
          (receiver.toList.flatMap (plainElement (governedGaps style around) none)).map spaceGap := by
        cases receiver with
        | none => rfl
        | some receiver =>
            simpa using plainElement_alone (inReceiver _ (List.mem_singleton_self _))
      let isEmpty (part : Tree) := part.form.isEmpty
      change _ ++ _ ++ listGaps _ _ _ isEmpty _ = (_ ++ _ ++ listGaps _ _ _ isEmpty _).map spaceGap
      rw [List.map_append, List.map_append, ← atReceiver, ← atName.alone, ← listGaps_spaceContainer _ inArguments]
  | declaration returnType name parameters body =>
      obtain ⟨front, inBody⟩ := List.forall_mem_append.1 spaced
      obtain ⟨inType, others⟩ := List.forall_mem_append.1 front
      obtain ⟨atName, inParameters⟩ := List.forall_mem_cons.1 others
      let isEmpty (part : Tree) := part.form.isEmpty
      change _ ++ _ ++ listGaps _ _ _ isEmpty _ ++ _ = (_ ++ _ ++ listGaps _ _ _ isEmpty _ ++ _).map spaceGap
      rw [List.map_append, List.map_append, List.map_append, ← option_alone inType, ← atName.alone,
        ← listGaps_spaceContainer _ inParameters, ← option_alone inBody]
  | parentheses inner => exact plainElement_alone (spaced _ (List.mem_singleton_self _))
  | collection kind elements typeTag => exact listGaps_spaceContainer _ spaced
  | empty => rfl
  | unknown text => rfl

theorem gapsBelow_withLeading
    (tree : Tree)
    (space : Space) :
    gapsBelow style around (tree.withLeading space) = gapsBelow style around tree := by
  rw [gapsBelow_eq, gapsBelow_eq, Tree.form_withLeading, Tree.withLeading, Tree.markers_revise]

/-- A form that is spaced is of the same kind. -/
theorem spacedForm_kind
    (dialect : Dialect)
    (form : Form Tree) :
    let new := spacedForm style dialect (form.map replace)
    around.inside new = around.inside form ∧ ownBlank style around new = ownBlank style around form ∧
      new.isEmpty = form.isEmpty ∧ new.isParentheses = form.isParentheses := by
  cases form with
  | conditional =>
      rw [Form.map, spacedForm]
      split <;> exact ⟨rfl, rfl, rfl, rfl⟩
  | _ => exact ⟨rfl, rfl, rfl, rfl⟩

end Forms

theorem isSpacedTree_rewritten
    (style : SpacingStyle)
    (around : SpacingContext)
    (tree : Tree) :
    IsSpacedTree style around tree ((spacing style).rewritten around tree) := by
  induction tree using Tree.induction generalizing around with
  | step head form ih =>
      let change := (spacing style).rewritten (around.inside form)
      let written := spacedForm style around.dialect (form.map change)
      obtain ⟨inside, own, isEmpty, isParentheses⟩ : around.inside written = around.inside form ∧
          ownBlank style around written = ownBlank style around form ∧ written.isEmpty = form.isEmpty ∧
            written.isParentheses = form.isParentheses :=
        spacedForm_kind around.dialect form
      obtain ⟨new, atNew⟩ : exists new, (spacing style).rewritten around (.node head form) = new := ⟨_, rfl⟩
      have made : (spacing style).rewritten around (.node head form) =
          ((Java.Tree.node head form).withForm (form.map change)).revise
            (spaceWith (ownBlank style around (form.map change)) head.leading) head.markers written := by
        have below : (spacing style).below around form = around.inside form := by cases form <;> rfl
        have parts : (Java.Tree.node head form).form.map ((spacing style).rewritten ((spacing style).below around
            (Java.Tree.node head form).form)) = form.map change := by
          change form.map ((spacing style).rewritten ((spacing style).below around form)) = _
          rw [below]
        rw [NodeChange.rewritten_eq, NodeChange.close_withForm, parts]
        rfl
      rw [atNew] at made ⊢
      have leading : new.leading = spaceWith (ownBlank style around form) head.leading := by
        rw [made, Tree.leading_revise, ownBlank_map]
      have atForm : new.form = written := by rw [made, Tree.form_revise]
      have below : gapsBelow style around new = (gapsBelow style around (.node head form)).map spaceGap := by
        have markers : new.markers = head.markers := by rw [made, Tree.markers_revise]
        have children : formGaps style (governedGaps style (around.inside form)) around.dialect id written =
            (formGaps style (governedGaps style (around.inside form)) around.dialect id form).map spaceGap :=
          formGaps_spacedForm around.dialect fun part isChild => ih part isChild _
        rw [gapsBelow_eq, gapsBelow_eq, markers, atForm, inside, children, List.map_append, map_spaceGap_ungoverned]
        rfl
      refine ⟨by rw [atForm]; exact isEmpty, by rw [atForm]; exact isParentheses, ?_, fun wanted => ?_⟩
      · rw [governedGaps, governedGaps, List.map_cons, below, atForm, own, leading]
        rfl
      · rw [spaceBefore, governedGaps, governedGaps, List.map_cons, gapsBelow_withLeading, below, Tree.leading_withLeading,
          leading, updateSpace_spaceWith]
        rfl

/--
Spacing makes of every space that the style governs, and that has blanks alone, just the blank that the style wants in
it. It leaves all other spaces as they are, and everything besides spaces.
-/
theorem spaces_followStyle
    (style : SpacingStyle)
    (cursor : TreeCursor)
    (tree : Tree) :
    exists new, (spaces style).run none cursor tree = .ok (some new) ∧ new.bare = tree.bare ∧
      let gaps := governedGaps style (spacingContext cursor) none
      (gaps tree).map Prod.snd = tree.allSpaces ∧ (gaps new).map Prod.snd = new.allSpaces ∧
        List.Forall₂ IsSpaced (gaps tree) (gaps new) := by
  refine ⟨_, ofNodes_run (spacing_isReadBy style) cursor tree, ?_, governedGaps_spaces .., governedGaps_spaces .., ?_⟩
  · exact (spaces_regaps isGapRelation_true (fun _ _ _ => trivial) style).bare_eq
      (ofNodes_run (spacing_isReadBy style) cursor tree)
  · rw [(isSpacedTree_rewritten style _ tree).alone, List.forall₂_map_right_iff]
    exact List.forall₂_same.2 fun gap _ => isSpaced_spaceGap gap

end Format
end Lossless
