import Lossless.Proofs.Layout.Bare

/-!
# Trees with other gaps

A walk that relates the spaces of a tree one by one relates the gaps of the whole as they are printed, in every
dialect. What is more, a hook may change a node after the walk through it, as long as it relates the gaps of the
node.
-/

namespace Lossless
namespace Java

variable {gap : SpacePlace -> Space -> Space -> Prop} {child closes : Tree -> Tree -> Prop}
variable {relates : Gaps -> Gaps -> Prop} {dialect : Dialect}

/-! ## Markers -/

section Markers

theorem bare_withMarkers
    {markers : Markers Space}
    {list : List (Marker Space)}
    (same : list.map Marker.bare = markers.toList.map Marker.bare) :
    (markers.withMarkers list).bare = markers.bare := by
  unfold Markers.withMarkers
  split
  · rfl
  · next differs =>
      split
      · next none =>
          rw [none, List.map_nil, eq_comm, List.map_eq_nil_iff] at same
          exact absurd (none.trans same.symm) differs
      · rw [Markers.bare, Markers.bare, same]

/-- A marker that is the same bare, with a related suffix if it is a trailing comma. -/
structure RegappedMarker
    (gap : SpacePlace -> Space -> Space -> Prop)
    (old new : Marker Space) : Prop where
  bare : new.bare = old.bare
  suffix : Option.Rel (gap .trailingCommaSuffix) old.fact.trailingComma? new.fact.trailingComma?

theorem RegappedMarker.refl
    (same : forall place space, gap place space space)
    (marker : Marker Space) :
    RegappedMarker gap marker marker := by
  refine ⟨rfl, ?_⟩
  cases marker.fact.trailingComma? with
  | none => exact .none
  | some suffix => exact .some (same _ suffix)

theorem regappedMarker_withFact
    {marker : Marker Space}
    {suffix suffix' : Space}
    (isComma : marker.fact = .trailingComma suffix)
    (related : gap .trailingCommaSuffix suffix suffix') :
    RegappedMarker gap marker (marker.withFact (.trailingComma suffix')) := by
  refine ⟨?_, ?_⟩
  · unfold Marker.bare Marker.withFact
    rw [isComma]
  · rw [isComma]
    exact .some related

theorem bare_of_forall
    {olds news : List (Marker Space)}
    (related : List.Forall₂ (RegappedMarker gap) olds news) :
    news.map Marker.bare = olds.map Marker.bare := by
  induction related with
  | nil => rfl
  | cons first _ ih => rw [List.map_cons, List.map_cons, first.bare, ih]

theorem suffix_of_forall
    {olds news : List (Marker Space)}
    (related : List.Forall₂ (RegappedMarker gap) olds news) :
    Option.Rel (gap .trailingCommaSuffix) (olds.findSome? fun marker => marker.fact.trailingComma?)
      (news.findSome? fun marker => marker.fact.trailingComma?) := by
  induction related with
  | nil => exact .none
  | cons first _ ih =>
      have suffix := first.suffix
      rw [List.findSome?_cons, List.findSome?_cons]
      revert suffix
      generalize Fact.trailingComma? _ = oldSuffix
      generalize Fact.trailingComma? _ = newSuffix
      rintro (related | none)
      · exact .some related
      · exact ih

/-- Markers that are related one by one. -/
theorem regappedMarkers_of_forall
    {markers : Markers Space}
    {list : List (Marker Space)}
    (related : List.Forall₂ (RegappedMarker gap) markers.toList list) :
    RegappedMarkers gap markers (markers.withMarkers list) := by
  refine ⟨bare_withMarkers (bare_of_forall related), ?_⟩
  rw [Markers.findFirst?, Markers.findFirst?, Markers.toList_withMarkers]
  exact suffix_of_forall related

theorem RegappedMarkers.refl
    (same : forall place space, gap place space space)
    (markers : Markers Space) :
    RegappedMarkers gap markers markers := by
  have each : List.Forall₂ (RegappedMarker gap) markers.toList markers.toList :=
    List.forall₂_same.2 fun marker _ => .refl same marker
  have related := regappedMarkers_of_forall each
  rwa [Markers.withMarkers_toList] at related

/-- Changing the first marker of a kind changes that one alone. -/
theorem exists_changeFirst
    {related : Marker Space -> Marker Space -> Prop}
    {select : Fact Space -> Option Space}
    {list : List (Marker Space)}
    {marker : Marker Space}
    (change : Marker Space -> Marker Space)
    (same : forall marker, related marker marker)
    (found : list.find? (fun marker => (select marker.fact).isSome) = some marker)
    (changed : related marker (change marker)) :
    exists list', Markers.changeFirst? select change list = some list' ∧ List.Forall₂ related list list' := by
  induction list with
  | nil => cases found
  | cons first rest ih =>
      unfold Markers.changeFirst?
      rw [List.find?_cons] at found
      cases isFirst : (select first.fact).isSome with
      | true =>
          rw [isFirst] at found
          obtain rfl := Option.some.inj found
          exact ⟨_, rfl, .cons changed (List.forall₂_same.2 fun marker _ => same marker)⟩
      | false =>
          rw [isFirst] at found
          obtain ⟨others, changedOthers, relatedOthers⟩ := ih found
          rw [if_neg (by simp), changedOthers]
          exact ⟨_, rfl, .cons (same first) relatedOthers⟩

end Markers

/-! ## Printed lists -/

theorem spaces_statement
    (place : ElementPlace)
    (padded : RightPadded Tree) :
    Piece.spaces (Pieces.statement dialect place (padded.map (Tree.printed dialect))) =
      Piece.spaces (padded.element.pieces dialect) ++ [(place.after, padded.after)] := by
  unfold Pieces.statement
  split <;> simp [Tree.printed, Pieces.symbol]

theorem spaces_trailingComma (markers : Markers Space) :
    Piece.spaces (Pieces.trailingComma markers) =
      ((markers.findFirst? Fact.trailingComma?).map fun suffix => (.trailingCommaSuffix, suffix)).toList := by
  unfold Pieces.trailingComma
  split <;> simp_all [Pieces.symbol]

theorem spaces_last
    (place : ElementPlace)
    (last : RightPadded Tree) :
    Piece.spaces (Pieces.listElements place [last.map (Tree.printed dialect)]) =
      Piece.spaces (last.element.pieces dialect) ++
        ([(place.after, last.after)] ++ Piece.spaces (Pieces.trailingComma last.markers)) := by
  simp [Pieces.listElements, Tree.printed]

theorem spaces_listElements_cons
    (place : ElementPlace)
    (first : RightPadded Tree)
    {rest : List (RightPadded Tree)}
    (more : rest ≠ []) :
    Piece.spaces (Pieces.listElements place ((first :: rest).map (·.map (Tree.printed dialect)))) =
      Piece.spaces (first.element.pieces dialect) ++
        ([(place.after, first.after)] ++
          Piece.spaces (Pieces.listElements place (rest.map (·.map (Tree.printed dialect))))) := by
  rw [List.map_cons, Pieces.listElements]
  · simp [Pieces.symbol, Tree.printed]
  · simpa using more

/-! ## Gaps of parts -/

/-- What is related has related gaps. -/
def RelatesGaps
    (relates : Gaps -> Gaps -> Prop)
    (child : Tree -> Tree -> Prop)
    (trees : List Tree) : Prop :=
  forall tree, tree ∈ trees -> forall new, child tree new -> forall dialect,
    relates (Piece.spaces (tree.pieces dialect)) (Piece.spaces (new.pieces dialect))

section Parts

variable (dialect : Dialect)
variable (relation : IsGapRelation relates)
variable (single : forall {place old new}, gap place old new -> relates [(place, old)] [(place, new)])

include relation single

theorem RegappedPadded.gaps
    {place : ElementPlace}
    {old new : RightPadded Tree}
    (related : RegappedPadded gap child place old new)
    (among : RelatesGaps relates child [old.element]) :
    relates (Piece.spaces (Pieces.statement dialect place (old.map (Tree.printed dialect))))
      (Piece.spaces (Pieces.statement dialect place (new.map (Tree.printed dialect)))) := by
  rw [spaces_statement, spaces_statement]
  exact relation.append (among _ (by simp) _ related.element dialect) (single related.after)

theorem gaps_statements
    {place : ElementPlace}
    {olds news : List (RightPadded Tree)}
    (related : List.Forall₂ (RegappedPadded gap child place) olds news)
    (among : RelatesGaps relates child (RightPadded.elements olds)) :
    relates
      (Piece.spaces ((olds.map (·.map (Tree.printed dialect))).flatMap (Pieces.statement dialect place)))
      (Piece.spaces ((news.map (·.map (Tree.printed dialect))).flatMap (Pieces.statement dialect place))) := by
  induction related with
  | nil => exact relation.refl _
  | cons first _ ih =>
      obtain ⟨here, later⟩ := List.forall_mem_cons.1 among
      simp only [List.map_cons, List.flatMap_cons, Piece.spaces_append]
      exact relation.append (first.gaps dialect relation single (by simpa [RelatesGaps] using here)) (ih later)

theorem RegappedMarkers.gaps
    {old new : Markers Space}
    (related : RegappedMarkers gap old new) :
    relates (Piece.spaces (Pieces.trailingComma old)) (Piece.spaces (Pieces.trailingComma new)) := by
  obtain ⟨-, suffix⟩ := related
  rw [spaces_trailingComma, spaces_trailingComma]
  generalize old.findFirst? Fact.trailingComma? = oldSuffix at suffix ⊢
  generalize new.findFirst? Fact.trailingComma? = newSuffix at suffix ⊢
  cases suffix with
  | none => exact relation.refl _
  | some suffix => exact single suffix

theorem gaps_listElements
    {place : ElementPlace}
    {olds news : List (RightPadded Tree)}
    (related : List.Forall₂ (RegappedPadded gap child place) olds news)
    (among : RelatesGaps relates child (RightPadded.elements olds)) :
    relates (Piece.spaces (Pieces.listElements place (olds.map (·.map (Tree.printed dialect)))))
      (Piece.spaces (Pieces.listElements place (news.map (·.map (Tree.printed dialect))))) := by
  induction related with
  | nil => exact relation.refl _
  | cons first others ih =>
      obtain ⟨here, later⟩ := List.forall_mem_cons.1 among
      have element := here _ first.element dialect
      cases others with
      | nil =>
          rw [List.map_singleton, List.map_singleton, spaces_last, spaces_last]
          exact relation.append element
            (relation.append (single first.after) (first.markers.gaps relation single))
      | cons =>
          rw [spaces_listElements_cons place _ (List.cons_ne_nil _ _),
            spaces_listElements_cons place _ (List.cons_ne_nil _ _)]
          exact relation.append element (relation.append (single first.after) (ih later))

theorem RegappedContainer.gaps
    {place : ContainerPlace}
    (delimiters : Text × Text)
    {old new : Container Tree}
    (related : RegappedContainer gap child place old new)
    (among : RelatesGaps relates child old.elements) :
    relates (Piece.spaces (Pieces.container place delimiters (old.map (Tree.printed dialect))))
      (Piece.spaces (Pieces.container place delimiters (new.map (Tree.printed dialect)))) := by
  have spaces (list : Container Tree) :
      Piece.spaces (Pieces.container place delimiters (list.map (Tree.printed dialect))) =
        [(place.before, list.before)] ++
          Piece.spaces (Pieces.listElements place.element (list.padded.map (·.map (Tree.printed dialect)))) := by
    simp [Pieces.container]
  rw [spaces, spaces]
  exact relation.append (single related.before) (gaps_listElements dialect relation single related.padded among)

omit single in
theorem gaps_option
    {view left : View}
    {old new : Option Tree}
    (walked : WalkedOption (regapping gap child closes).child view old left new)
    (among : RelatesGaps relates child old.toList) :
    relates (Piece.spaces (Pieces.option (old.map (Tree.printed dialect))))
      (Piece.spaces (Pieces.option (new.map (Tree.printed dialect)))) := by
  cases walked with
  | none => exact relation.refl _
  | some related => exact among _ (by simp) _ related dialect

theorem gaps_receiver
    {view left : View}
    {old new : Option (RightPadded Tree)}
    (walked : WalkedOption (WalkedElement (regapping gap child closes) .methodSelect) view old left new)
    (among : RelatesGaps relates child (old.map (·.element)).toList) :
    relates (Piece.spaces (Pieces.receiver (old.map (·.map (Tree.printed dialect)))))
      (Piece.spaces (Pieces.receiver (new.map (·.map (Tree.printed dialect))))) := by
  have spaces (padded : RightPadded Tree) :
      Piece.spaces (Pieces.receiver (some (padded.map (Tree.printed dialect)))) =
        Piece.spaces (padded.element.pieces dialect) ++ [(.methodSelectSuffix, padded.after)] := by
    simp [Pieces.receiver, Tree.printed, Pieces.symbol, ElementPlace.after]
  cases walked with
  | none => exact relation.refl _
  | some element =>
      have related := regappedPadded_of_walked element
      simp only [Option.map_some, spaces]
      exact relation.append (among _ (by simp) _ related.element dialect) (single related.after)

/-- A walk that relates the gaps of the children relates those of the form. -/
theorem gaps_of_walked
    {view left : View}
    {old new : Form Tree}
    (walked : WalkedForm (regapping gap child closes) view old left new)
    (among : RelatesGaps relates child old.children) :
    relates (Piece.spaces (Pieces.form dialect (old.map (Tree.printed dialect))))
      (Piece.spaces (Pieces.form dialect (new.map (Tree.printed dialect)))) := by
  have within {trees : List Tree} (subset : forall tree, tree ∈ trees -> tree ∈ old.children) :
      RelatesGaps relates child trees :=
    fun tree member => among tree (subset tree member)
  have joins {oldMore newMore : Gaps} {place : SpacePlace} {before before' : Space}
      (related : gap place before before') (more : relates oldMore newMore) :
      relates ((place, before) :: oldMore) ((place, before') :: newMore) :=
    relation.append (single related) more
  cases walked with
  | compilationUnit statements eof =>
      have parts := relation.append
        (gaps_statements dialect relation single (regappedElements_of_walked statements) among) (single eof)
      simpa [Form.map, Pieces.form] using parts
  | block statements closing =>
      have parts := relation.append
        (gaps_statements dialect relation single (regappedElements_of_walked statements) among) (single closing)
      cases dialect <;> simpa [Form.map, Pieces.form, Pieces.symbol] using parts
  | conditional condition consequence alternative =>
      have body := regappedPadded_of_walked consequence
      have parts := relation.append (among _ (by simp [Form.children]) _ condition dialect)
        (relation.append (body.gaps dialect relation single (within (by simp [Form.children])))
          (gaps_option dialect relation alternative (within (by simp_all [Form.children]))))
      simpa [Form.map, Pieces.form, Pieces.symbol, Tree.printed] using parts
  | otherwise walkedBody =>
      have body := regappedPadded_of_walked walkedBody
      exact body.gaps dialect relation single (within (by simp [Form.children]))
  | returns value => exact gaps_option dialect relation value among
  | assignment target walkedValue =>
      have value := regappedOperand_of_walked walkedValue
      have parts := relation.append (among _ (by simp [Form.children]) _ target dialect)
        (joins value.before (among _ (by simp [Form.children]) _ value.element dialect))
      simpa [Form.map, Pieces.form, Pieces.symbol, Tree.printed] using parts
  | binary leftTree operator right =>
      cases operator with
      | mk before _ =>
          have parts := relation.append (among _ (by simp [Form.children]) _ leftTree dialect)
            (joins before (among _ (by simp [Form.children]) _ right dialect))
          simpa [Form.map, Pieces.form, Tree.printed] using parts
  | identifier => exact relation.refl _
  | literal => exact relation.refl _
  | fieldAccess target walkedName =>
      have name := regappedOperand_of_walked walkedName
      have parts := relation.append (among _ (by simp [Form.children]) _ target dialect)
        (joins name.before (among _ (by simp [Form.children]) _ name.element dialect))
      simpa [Form.map, Pieces.form, Pieces.symbol, Tree.printed] using parts
  | call receiver name list =>
      have parts := relation.append
        (gaps_receiver dialect relation single receiver (within (by simp_all [Form.children])))
        (relation.append (among _ (by simp [Form.children]) _ name dialect)
          (RegappedContainer.gaps dialect relation single (['('], [')']) list (within (by simp_all [Form.children]))))
      simpa [Form.map, Pieces.form, Tree.printed] using parts
  | declaration returnType name list body =>
      have parts := relation.append
        (gaps_option dialect relation returnType (within (by simp_all [Form.children])))
        (relation.append (among _ (by simp [Form.children]) _ name dialect)
          (relation.append (RegappedContainer.gaps dialect relation single (['('], [')']) list (within (by simp_all [Form.children])))
            (gaps_option dialect relation body (within (by simp_all [Form.children])))))
      cases dialect <;> simpa [Form.map, Pieces.form, Pieces.symbol, Tree.printed] using parts
  | parentheses walkedInner =>
      have inner := regappedPadded_of_walked walkedInner
      have parts := relation.append (among _ (by simp [Form.children]) _ inner.element dialect) (single inner.after)
      simpa [Form.map, Pieces.form, Pieces.symbol, Tree.printed] using parts
  | collection list => exact RegappedContainer.gaps dialect relation single _ list among
  | empty => exact relation.refl _
  | unknown => exact relation.refl _

end Parts

/-! ## Nodes -/

/-- What a walk makes of the parts of a node. -/
structure RegappedParts
    (gap : SpacePlace -> Space -> Space -> Prop)
    (relates : Gaps -> Gaps -> Prop)
    (old new : Tree) : Prop extends Regapped relates old new where
  leading : gap old.form.leadingPlace old.leading new.leading

theorem spaces_pieces
    (dialect : Dialect)
    (tree : Tree) :
    Piece.spaces (tree.pieces dialect) =
      (tree.form.leadingPlace, tree.leading) ::
        Piece.spaces (Pieces.form dialect (tree.form.map (Tree.printed dialect))) := by
  obtain ⟨head, form⟩ := tree
  simp [Tree.pieces_node, Tree.leading, Tree.head, Tree.form]

theorem Tree.bare_revise
    {tree : Tree}
    {leading : Space}
    {markers : Markers Space}
    {form : Form Tree}
    (sameMarkers : markers.bare = tree.markers.bare)
    (sameForm : (form.map bare).bare = (tree.form.map bare).bare) :
    (tree.revise leading markers form).bare = tree.bare := by
  have head : (tree.revise leading markers form).head.bare = tree.head.bare := by
    have id : (tree.revise leading markers form).head.id = tree.head.id := Tree.id_revise ..
    have revised : (tree.revise leading markers form).head.markers = markers := Tree.markers_revise ..
    rw [Head.bare, Head.bare, id, revised, sameMarkers]
    rfl
  rw [Tree.bare_eq, Tree.bare_eq tree, head, Tree.form_revise, sameForm]

theorem Form.leadingPlace_eq
    {old new : Form Tree}
    (same : (new.map Tree.bare).bare = (old.map Tree.bare).bare) :
    new.leadingPlace = old.leadingPlace := by
  have place (form : Form Tree) : (form.map Tree.bare).bare.leadingPlace = form.leadingPlace := by
    cases form <;> rfl
  rw [← place, same, place]

/-- A walk makes of a node one that is the same bare, with related gaps, before the hook after it. -/
theorem regapped_of_walked
    (relation : IsGapRelation relates)
    (single : forall {place old new}, gap place old new -> relates [(place, old)] [(place, new)])
    {view left : View}
    {old new : Tree}
    (walked : WalkedNode (regapping gap child closes) view old left new)
    (children : forall tree, tree ∈ old.children -> forall new, child tree new -> Regapped relates tree new) :
    new = old ∨ exists middle, RegappedParts gap relates old middle ∧ closes middle new := by
  cases walked with
  | stopped => exact .inl rfl
  | walked _ _ parts closed =>
      refine .inr ⟨_, ?_, closed⟩
      cases parts with
      | mk leading markers form =>
          have bare := bare_of_walked form fun tree member new related => (children tree member new related).bare
          have among : RelatesGaps relates child old.children :=
            fun tree member new related => (children tree member new related).gaps
          refine ⟨⟨Tree.bare_revise (RegappedMarkers.bare markers) bare, fun dialect => ?_⟩, ?_⟩
          · rw [spaces_pieces, spaces_pieces, Tree.leading_revise, Tree.form_revise, Form.leadingPlace_eq bare]
            exact relation.append (single leading) (gaps_of_walked dialect relation single form among)
          · rw [Tree.leading_revise]
            exact leading

namespace Regapped

theorem refl
    (relation : IsGapRelation relates)
    (tree : Tree) :
    Regapped relates tree tree :=
  ⟨rfl, fun _ => relation.refl _⟩

theorem trans
    {first second third : Tree}
    (relation : IsGapRelation relates)
    (before : Regapped relates first second)
    (after : Regapped relates second third) :
    Regapped relates first third :=
  ⟨after.bare.trans before.bare, fun dialect => relation.trans (before.gaps dialect) (after.gaps dialect)⟩

end Regapped

end Java
end Lossless
