import Lossless.Proofs.Format.OnLines
import Lossless.Proofs.Format.Stable

/-!
# Formatting a copy of what was formatted

One run has indented a tree. Another one is about to indent a tree whose spaces echo what the first run has made. The
columns of the second run are those of the first: they follow from the nesting, from the line breaks, and from what is
measured on lines on which both runs print the same. So what follows a line break is already in its column, and
finishing the spaces gives the same texts.
-/

namespace Lossless
namespace Format

open Java Indents

/-! ## Spaces -/

/-- Spaces that are finished alike in a place. -/
def FinishAlike
    (styles : Styles)
    (useCrlf : Option Bool)
    (place : SpacePlace)
    (old new : Space) : Prop :=
  contents (finishSpace styles.indents useCrlf place new) = contents (finishSpace styles.indents useCrlf place old)

/-- Surroundings that agree but for the column that a list gives to a node that goes on in its line. -/
def AgreeFor
    (node : Tree)
    (around other : Surroundings) : Prop :=
  other = around ∨ node.leading.containsNewline = false ∧ ∃ element, other = { around with element := element }

/-! ## Layers -/

section Layers

variable {styles : Styles} {useCrlf : Option Bool} {slot : Slot} {inside insideEcho : Interior}
variable {first second echo : Surroundings -> Tree -> Tree -> Prop} {child : Tree -> Tree -> Prop}
variable {measured measuredCopy : Measure} {columns : ListColumns} {around aroundEcho : Surroundings}

section Spaces

variable {column : Nat} {old new copy again : Space}

/-- A space that has been moved to a column, and its echo once it is moved to that column, are finished alike. -/
theorem Echoes.indented
    (echoes : Echoes styles useCrlf slot new copy)
    (noPrefix : slot.place ≠ .compilationUnitPrefix)
    (eof : slot.place = .compilationUnitEof -> column = 0)
    (moved : new = Exact.indentTo styles.indents column old)
    (movedAgain : again = Exact.indentTo styles.indents column copy) :
    FinishAlike styles useCrlf slot.place new again := by
  rw [movedAgain]
  exact echoes.again noPrefix column (by rw [moved, indentTo_indentTo]) eof

/-- The same in any column of what goes on in its line. -/
theorem Echoes.indented_inLine
    (echoes : Echoes styles useCrlf slot new copy)
    (isInner : SpacePlace.IsInner slot.place)
    (inLine : new.containsNewline = false) :
    FinishAlike styles useCrlf slot.place new (Exact.indentTo styles.indents column copy) :=
  echoes.again isInner.1 column (indentTo_of_inLine _ _ inLine) fun isEof => absurd isEof isInner.2

end Spaces

theorem changedMarkers_of_unmarked
    {gap : SpacePlace -> Space -> Space -> Prop}
    {old new : Markers Space}
    (unmarked : old.toList = [])
    (unmarkedNew : new.toList = []) :
    ChangedMarkers gap old new := by
  refine ⟨fun _ => unmarkedNew, fun marker suffix only => ?_⟩
  rw [unmarked] at only
  cases only

variable (twin : forall {around aroundCopy aroundEcho old new copy again}, first around old new ->
  echo aroundEcho new copy -> second aroundCopy copy again -> AgreeFor new around aroundCopy -> child new again)

include twin

theorem ReindentedPadded.replayed
    {place : ElementPlace}
    {column : Nat}
    {old new copy again : RightPadded Tree}
    (run : ReindentedPadded styles first around column old new)
    (echoes : RelaidPadded (Echoes styles useCrlf) echo aroundEcho slot new copy)
    (rerun : ReindentedPadded styles second around column copy again)
    (atPlace : slot.place = place.after) :
    ChangedPadded (FinishAlike styles useCrlf) child place new again := by
  have isInner := isInner_after place
  refine ⟨twin run.element echoes.element rerun.element (.inl rfl), ?_,
    changedMarkers_of_unmarked echoes.unmarked (rerun.markers ▸ echoes.unmarkedNew)⟩
  rw [← atPlace] at isInner ⊢
  exact echoes.after.indented isInner.1 (fun isEof => absurd isEof isInner.2) run.after rerun.after

theorem statements_replayed
    {place : ElementPlace}
    {column : Nat}
    {olds news copies agains : List (RightPadded Tree)}
    (run : List.Forall₂ (ReindentedPadded styles first around column) olds news)
    (echoes : RelaidStatements (Echoes styles useCrlf) echo aroundEcho slot news copies)
    (rerun : List.Forall₂ (ReindentedPadded styles second around column) copies agains)
    (atPlace : slot.place = place.after) :
    List.Forall₂ (ChangedPadded (FinishAlike styles useCrlf) child place) news agains := by
  induction run generalizing copies agains with
  | nil =>
      cases echoes
      cases rerun
      exact .nil
  | cons here _ ih =>
      cases echoes with
      | cons hereEcho laterEcho =>
          cases rerun with
          | cons hereAgain laterAgain =>
              exact .cons (here.replayed twin hereEcho hereAgain atPlace) (ih laterEcho laterAgain)

theorem ReindentedOperand.replayed
    {place : OperandPlace}
    {column : Nat}
    {old new copy again : LeftPadded Tree}
    (run : ReindentedOperand styles first around column old new)
    (echoes : RelaidOperand (Echoes styles useCrlf) echo aroundEcho slot new copy)
    (rerun : ReindentedOperand styles second around column copy again)
    (atPlace : slot.place = place.before) :
    ChangedOperand (FinishAlike styles useCrlf) child place new again := by
  have isInner := isInner_beforeOperand place
  refine ⟨?_, twin run.element echoes.element rerun.element (.inl rfl),
    changedMarkers_of_unmarked echoes.unmarked (rerun.markers ▸ echoes.unmarkedNew)⟩
  rw [← atPlace] at isInner ⊢
  exact echoes.before.indented isInner.1 (fun isEof => absurd isEof isInner.2) run.before rerun.before

theorem option_replayed
    {old new copy again : Option Tree}
    (run : Option.Rel (first around) old new)
    (echoes : Option.Rel (echo aroundEcho) new copy)
    (rerun : Option.Rel (second around) copy again) :
    Option.Rel child new again := by
  cases run with
  | none =>
      cases echoes
      cases rerun
      exact .none
  | some run =>
      cases echoes with
      | some echoes =>
          cases rerun with
          | some rerun => exact .some (twin run echoes rerun (.inl rfl))

end Layers

/-! ## Lists -/

section Lists

variable {styles : Styles} {useCrlf : Option Bool} {slot : Slot} {inside insideEcho : Interior} {layout : ListLayout}
variable {first second echo : Surroundings -> Tree -> Tree -> Prop} {child : Tree -> Tree -> Prop}
variable {measured measuredCopy : Measure} {columns : ListColumns} {around aroundEcho : Surroundings}

theorem findFirst?_of_comma
    {markers : Markers Space}
    {marker : Marker Space}
    {suffix : Space}
    (only : markers.toList = [marker])
    (isComma : marker.fact = .trailingComma suffix) :
    markers.findFirst? Fact.trailingComma? = some suffix := by
  simp [Markers.findFirst?, only, isComma, Fact.trailingComma?]

/-- The space after an element goes to the same column again, or goes on in its line. -/
theorem after_replayed
    {isLast : Bool}
    {next nextCopy : Nat}
    {old copy : RightPadded Tree}
    {element elementCopy : Tree}
    (sameComma : hasTrailingComma copy = hasTrailingComma old)
    (echoes : Echoes styles useCrlf slot (Exact.indentAfter styles.indents columns next isLast element old).after copy.after)
    (isInner : SpacePlace.IsInner slot.place)
    (settles : nextCopy = next ∨ (isLast && !hasTrailingComma old) = true ∨
      (Exact.indentAfter styles.indents columns next isLast element old).after.containsNewline = false) :
    FinishAlike styles useCrlf slot.place (Exact.indentAfter styles.indents columns next isLast element old).after
      (Exact.indentAfter styles.indents columns nextCopy isLast elementCopy copy).after := by
  rcases settles with rfl | atEnd | inLine
  · refine echoes.indented isInner.1 (fun isEof => absurd isEof isInner.2) rfl ?_
    rw [Exact.indentAfter, sameComma]
  · refine echoes.indented isInner.1 (fun isEof => absurd isEof isInner.2) rfl ?_
    rw [Exact.indentAfter, sameComma, atEnd]
    rfl
  · exact echoes.indented_inLine isInner inLine

variable (twin : forall {around aroundCopy aroundEcho old new copy again}, first around old new ->
  echo aroundEcho new copy -> second aroundCopy copy again -> AgreeFor new around aroundCopy -> child new again)

include twin

/-- An element without markers, with the space after it. -/
theorem padded_replayed
    {place : ElementPlace}
    {aroundCopy : Surroundings}
    {isLast : Bool}
    {next nextCopy : Nat}
    {old copy : RightPadded Tree}
    {element elementCopy : Tree}
    (run : first around old.element element)
    (echoes : RelaidPadded (Echoes styles useCrlf) echo aroundEcho slot
      (Exact.indentAfter styles.indents columns next isLast element old) copy)
    (rerun : second aroundCopy copy.element elementCopy)
    (atPlace : slot.place = place.after)
    (agrees : AgreeFor element around aroundCopy)
    (settles : nextCopy = next ∨ (isLast && !hasTrailingComma old) = true ∨
      (Exact.indentAfter styles.indents columns next isLast element old).after.containsNewline = false) :
    ChangedPadded (FinishAlike styles useCrlf) child place (Exact.indentAfter styles.indents columns next isLast element old)
      (Exact.indentAfter styles.indents columns nextCopy isLast elementCopy copy) := by
  have isInner := isInner_after place
  have sameComma : hasTrailingComma copy = hasTrailingComma old := by
    rw [hasTrailingComma_of_unmarked echoes.unmarkedNew, ← hasTrailingComma_indentAfter columns next isLast element
      old, hasTrailingComma_of_unmarked echoes.unmarked]
  refine ⟨twin run echoes.element rerun agrees, ?_, changedMarkers_of_unmarked echoes.unmarked ?_⟩
  · rw [← atPlace] at isInner ⊢
    exact after_replayed sameComma echoes.after isInner settles
  · rw [Exact.indentAfter]
    dsimp only
    split
    · exact toList_updateTrailingComma echoes.unmarkedNew
    · exact echoes.unmarkedNew

/-- The last element of a list, with a comma after it or without. -/
theorem last_replayed
    {aroundCopy : Surroundings}
    {next nextCopy : Nat}
    {old copy : RightPadded Tree}
    {element elementCopy : Tree}
    (run : first around old.element element)
    (echoes : RelaidLast (Echoes styles useCrlf) echo layout aroundEcho
      (Exact.indentAfter styles.indents columns next true element old) copy)
    (rerun : second aroundCopy copy.element elementCopy)
    (agrees : AgreeFor element around aroundCopy)
    (settles : nextCopy = next ∨ isInLine [Exact.indentAfter styles.indents columns next true element old] = true) :
    ChangedPadded (FinishAlike styles useCrlf) child layout.place.element
      (Exact.indentAfter styles.indents columns next true element old)
      (Exact.indentAfter styles.indents columns nextCopy true elementCopy copy) := by
  have sameComma : hasTrailingComma (Exact.indentAfter styles.indents columns next true element old) = _ :=
    hasTrailingComma_indentAfter columns next true element old
  have settlesAfter : nextCopy = next ∨ (true && !hasTrailingComma old) = true ∨
      (Exact.indentAfter styles.indents columns next true element old).after.containsNewline = false := by
    refine settles.imp_right fun inLine => ?_
    rw [isInLine, sameComma] at inLine
    simpa [imp_iff_not_or] using inLine
  generalize isNew : Exact.indentAfter styles.indents columns next true element old = new at echoes sameComma settlesAfter
  cases echoes with
  | plain padded =>
      subst isNew
      exact padded_replayed twin run padded rerun rfl agrees settlesAfter
  | comma atElement after only isComma onlyNew isCommaNew suffixes =>
      subst isNew
      have isInner := isInner_after layout.place.element
      have commaCopy := hasTrailingComma_of_comma onlyNew isCommaNew
      rw [hasTrailingComma_of_comma only isComma] at sameComma
      refine ⟨twin run atElement rerun agrees, ?_, fun unmarked => ?_, ?_⟩
      · exact after_replayed (commaCopy.trans sameComma) after isInner settlesAfter
      · rw [unmarked] at only
        cases only
      · rintro _ _ onlyMarker isCommaMarker
        rw [only] at onlyMarker
        obtain rfl := (List.cons.inj onlyMarker).1
        rw [isComma] at isCommaMarker
        obtain rfl := Fact.trailingComma.inj isCommaMarker
        obtain ⟨changed, onlyChanged, isCommaChanged⟩ :=
          exists_updateTrailingComma (Exact.indentTo styles.indents columns.enclosing) onlyNew isCommaNew
        refine ⟨changed, _, onlyChanged, isCommaChanged, ?_⟩
        have moved := findFirst?_of_comma only isComma
        change (updateTrailingComma _ old.markers).findFirst? _ = _ at moved
        rw [findFirst?_updateTrailingComma, Option.map_eq_some_iff] at moved
        obtain ⟨oldSuffix, -, moved⟩ := moved
        exact suffixes.indented (fun isPrefix => by cases isPrefix) (fun isEof => by cases isEof) moved.symm rfl

/-- The elements that follow go to the same column again, or go on in their line. -/
def Settles
    (target targetCopy : Nat)
    (list : List (RightPadded Tree)) : Prop :=
  targetCopy = target ∨
    isInLine list = true ∧ forall first, first ∈ list.head? -> first.element.leading.containsNewline = false

omit twin in
theorem agreeFor_of_settles
    {target targetCopy : Nat}
    {padded : RightPadded Tree}
    {list : List (RightPadded Tree)}
    (settles : Settles target targetCopy (padded :: list)) :
    AgreeFor padded.element (inside.listed target) (inside.listed targetCopy) := by
  rcases settles with rfl | ⟨-, inLine⟩
  · exact .inl rfl
  · exact .inr ⟨inLine padded rfl, _, rfl⟩

/-- The first element of a list sets the same column again, unless the others go on in its line. -/
def SetsAgain
    (first second echo : Surroundings -> Tree -> Tree -> Prop)
    (measured measuredCopy : Measure)
    (columns : ListColumns)
    (list : List (RightPadded Tree)) : Prop :=
  isInLine list = true ∨ forall {around aroundEcho aroundCopy old new copy again next nextCopy},
    (∃ padded, padded ∈ list.head? ∧ padded.element = new) -> first around old new -> echo aroundEcho new copy ->
      second aroundCopy copy again -> AgreeFor new around aroundCopy -> measured columns old new next ->
        measuredCopy columns copy again nextCopy -> nextCopy = next

omit twin in
theorem RelaidElements.exists_head
    {gap : Slot -> Space -> Space -> Prop}
    {blank : Bool}
    {old new : RightPadded Tree}
    {olds news : List (RightPadded Tree)}
    (related : RelaidElements gap echo layout insideEcho blank (old :: olds) (new :: news)) :
    RelatedSomewhere echo old.element new.element := by
  cases related with
  | last last => exact ⟨_, last.element⟩
  | cons first => exact ⟨_, first.element⟩

/-- The elements of a list, given whether the first of them sets the column of the others again. -/
theorem ReindentedElements.replayed
    {isFirst blank : Bool}
    {target targetCopy : Nat}
    {olds news copies agains : List (RightPadded Tree)}
    (run : ReindentedElements styles measured first inside columns isFirst target olds news)
    (echoes : RelaidElements (Echoes styles useCrlf) echo layout insideEcho blank news copies)
    (rerun : ReindentedElements styles measuredCopy second inside columns isFirst targetCopy copies agains)
    (settles : Settles target targetCopy news)
    (sets : (isFirst && columns.aligns) = true -> SetsAgain first second echo measured measuredCopy columns news) :
    List.Forall₂ (ChangedPadded (FinishAlike styles useCrlf) child layout.place.element) news agains := by
  induction run generalizing blank targetCopy copies agains with
  | nil => cases echoes
  | @cons isFirst target next padded element rest rest' visited keeps measures others ih =>
      cases rerun with
      | nil => cases echoes
      | @cons _ _ nextCopy paddedCopy elementCopy restCopy _ visitedCopy keepsCopy measuresCopy othersCopy =>
          have agrees : AgreeFor element (inside.listed target) (inside.listed targetCopy) := agreeFor_of_settles settles
          obtain ⟨_, echo⟩ := echoes.exists_head
          -- what follows goes to the same column, or on in the line
          have goesOn : nextCopy = next ∨
              isInLine (Exact.indentAfter styles.indents columns next rest.isEmpty element padded :: rest') = true := by
            cases first : isFirst && columns.aligns with
            | false => exact settles.imp (fun same => (keepsCopy first).trans (same.trans (keeps first).symm)) And.left
            | true =>
                refine (sets first).symm.imp_left fun again => ?_
                exact again ⟨_, rfl, rfl⟩ visited echo visitedCopy agrees (measures first) (measuresCopy first)
          cases echoes with
          | last last =>
              cases others
              cases othersCopy
              exact .cons (last_replayed twin visited last visitedCopy agrees goesOn) .nil
          | cons head tail =>
              cases others with
              | nil => cases tail
              | cons =>
                  cases othersCopy with
                  | nil => cases tail
                  | cons visitedNext keepsNext measuresNext othersNext =>
                      refine .cons (padded_replayed twin visited head visitedCopy rfl agrees ?_)
                        (ih tail (.cons visitedNext keepsNext measuresNext othersNext) ?_ nofun)
                      · exact goesOn.imp_right fun inLine => .inr (isInLine_cons inLine).1
                      · refine goesOn.imp_right fun inLine => ⟨(isInLine_cons inLine).2.2, ?_⟩
                        rintro first ⟨⟩
                        exact (isInLine_cons inLine).2.1

/-- The one empty node of a list without elements. -/
theorem none_replayed
    {target : Nat}
    {olds news copies agains : List (RightPadded Tree)}
    (run : ReindentedElements styles measured first inside columns true target olds news)
    (echoes : RelaidNone (Echoes styles useCrlf) echo layout insideEcho news copies)
    (rerun : ReindentedElements styles measuredCopy second inside columns true target copies agains) :
    List.Forall₂ (ChangedPadded (FinishAlike styles useCrlf) child layout.place.element) news agains := by
  cases run with
  | nil => cases echoes
  | @cons _ _ _ padded _ _ _ visited _ _ others =>
      cases rerun with
      | nil => cases echoes
      | cons visitedCopy _ _ othersCopy =>
          cases echoes with
          | only _ _ echo =>
              cases others
              cases othersCopy
              have noComma := hasTrailingComma_of_unmarked echo.unmarked
              rw [hasTrailingComma_indentAfter] at noComma
              refine .cons (padded_replayed twin visited echo visitedCopy rfl (.inl rfl) (.inr (.inl ?_))) .nil
              rw [noComma]
              rfl

theorem ReindentedList.replayed
    {place : ContainerPlace}
    {old new copy again : Container Tree}
    (run : ReindentedList styles measured first inside place old new)
    (echoes : RelaidContainer styles (Echoes styles useCrlf) echo layout insideEcho new copy)
    (rerun : ReindentedList styles measuredCopy second inside place copy again)
    (atPlace : layout.place = place)
    (sets : (Exact.listColumns styles.indents inside.line place).aligns = true ->
      SetsAgain first second echo measured measuredCopy (Exact.listColumns styles.indents inside.line place) new.padded) :
    ChangedContainer (FinishAlike styles useCrlf) child place new again := by
  subst atPlace
  have isInner := isInner_beforeList layout.place
  refine ⟨?_, ?_, changedMarkers_of_unmarked echoes.unmarked (rerun.markers ▸ echoes.unmarkedNew)⟩
  · exact echoes.before.indented isInner.1 (fun isEof => absurd isEof isInner.2) run.before rerun.before
  · rcases echoes.padded with none | ⟨-, -, elements⟩
    · exact none_replayed twin run.padded none rerun.padded
    · exact run.padded.replayed twin elements rerun.padded (.inl rfl) fun aligns => sets aligns

end Lists

/-! ## Forms -/

section Forms

variable {styles : Styles} {useCrlf : Option Bool} {inside insideEcho : Interior}
variable {first second echo : Surroundings -> Tree -> Tree -> Prop} {child : Tree -> Tree -> Prop}
variable {measured measuredCopy : Measure}

/-- What becomes of the parts of a node in both runs, given that of its children. -/
theorem ReindentedForm.replayed
    (twin : forall {around aroundCopy aroundEcho old new copy again}, first around old new ->
      echo aroundEcho new copy -> second aroundCopy copy again -> AgreeFor new around aroundCopy -> child new again)
    {old new copy again : Form Tree}
    (run : ReindentedForm styles measured first inside old new)
    (echoes : RelaidForm styles (Echoes styles useCrlf) echo insideEcho new copy)
    (rerun : ReindentedForm styles measuredCopy second inside copy again)
    (unit : new.isUnit = true -> inside.line = 0)
    (sets : forall inside place list, alignedList? styles.indents new = some list ->
      SetsAgain first second echo measured measuredCopy (Exact.listColumns styles.indents inside place) list.padded) :
    ChangedForm (FinishAlike styles useCrlf) child new again := by
  cases run with
  | compilationUnit statements =>
      cases echoes with
      | compilationUnit statementsEcho eofEcho =>
          cases rerun with
          | compilationUnit statementsAgain =>
              exact .compilationUnit (statements_replayed twin statements statementsEcho statementsAgain rfl)
                (eofEcho.indented nofun (fun _ => unit rfl) rfl rfl)
  | block statements =>
      cases echoes with
      | block statementsEcho closingEcho =>
          cases rerun with
          | block statementsAgain =>
              exact .block (statements_replayed twin statements statementsEcho statementsAgain rfl)
                (closingEcho.indented nofun nofun rfl rfl)
  | conditional condition consequence alternative =>
      cases echoes with
      | conditional conditionEcho consequenceEcho alternativeEcho =>
          cases rerun with
          | conditional conditionAgain consequenceAgain alternativeAgain =>
              exact .conditional (twin condition conditionEcho conditionAgain (.inl rfl))
                (consequence.replayed twin consequenceEcho consequenceAgain rfl)
                (option_replayed twin alternative alternativeEcho alternativeAgain)
  | otherwise body =>
      cases echoes with
      | otherwise bodyEcho =>
          cases rerun with
          | otherwise bodyAgain => exact .otherwise (body.replayed twin bodyEcho bodyAgain rfl)
  | returns value =>
      cases echoes with
      | returns valueEcho =>
          cases rerun with
          | returns valueAgain => exact .returns (option_replayed twin value valueEcho valueAgain)
  | assignment target value =>
      cases echoes with
      | assignment targetEcho valueEcho =>
          cases rerun with
          | assignment targetAgain valueAgain =>
              exact .assignment (twin target targetEcho targetAgain (.inl rfl))
                (value.replayed twin valueEcho valueAgain rfl)
  | binary left right =>
      cases echoes with
      | binary _ same unmarked unmarkedNew leftEcho beforeEcho rightEcho =>
          cases rerun with
          | binary leftAgain rightAgain =>
              exact .binary (twin left leftEcho leftAgain (.inl rfl)) (beforeEcho.indented nofun nofun rfl rfl) same
                (changedMarkers_of_unmarked unmarked unmarkedNew) (twin right rightEcho rightAgain (.inl rfl))
  | identifier =>
      cases echoes
      cases rerun
      exact .identifier
  | literal =>
      cases echoes
      cases rerun
      exact .literal
  | fieldAccess target name =>
      cases echoes with
      | fieldAccess targetEcho nameEcho =>
          cases rerun with
          | fieldAccess targetAgain nameAgain =>
              exact .fieldAccess (twin target targetEcho targetAgain (.inl rfl))
                (name.replayed twin nameEcho nameAgain rfl)
  | plainCall name list =>
      cases echoes with
      | plainCall nameEcho listEcho =>
          cases rerun with
          | plainCall nameAgain listAgain =>
              exact .call .none (twin name nameEcho nameAgain (.inl rfl))
                (list.replayed twin listEcho listAgain rfl fun aligns => sets _ _ _ (if_pos aligns))
  | call receiver name list =>
      cases echoes with
      | call _ receiverEcho nameEcho listEcho =>
          cases rerun with
          | call receiverAgain nameAgain listAgain =>
              have lines := containsNewline_eq_of_feeds receiverEcho.after.feeds
              rw [receiver.after, containsNewline_indentTo] at lines
              rw [Interior.afterReceiver_eq lines] at nameAgain listAgain
              exact .call (.some (receiver.replayed twin receiverEcho receiverAgain rfl))
                (twin name nameEcho nameAgain (.inl rfl))
                (list.replayed twin listEcho listAgain rfl fun aligns => sets _ _ _ (if_pos aligns))
  | declaration returnType name list body =>
      cases echoes with
      | declaration returnTypeEcho nameEcho listEcho bodyEcho =>
          cases rerun with
          | declaration returnTypeAgain nameAgain listAgain bodyAgain =>
              exact .declaration (option_replayed twin returnType returnTypeEcho returnTypeAgain)
                (twin name nameEcho nameAgain (.inl rfl))
                (list.replayed twin listEcho listAgain rfl fun aligns => sets _ _ _ (if_pos aligns))
                (option_replayed twin body bodyEcho bodyAgain)
  | parentheses inner =>
      cases echoes with
      | parentheses innerEcho =>
          cases rerun with
          | parentheses innerAgain => exact .parentheses (inner.replayed twin innerEcho innerAgain rfl)
  | collection list =>
      cases echoes with
      | collection listEcho =>
          cases rerun with
          | collection listAgain => exact .collection (list.replayed twin listEcho listAgain rfl nofun)
  | empty =>
      cases echoes
      cases rerun
      exact .empty
  | unknown =>
      cases echoes
      cases rerun
      exact .unknown

end Forms

/-! ## Nodes -/

/-- Both runs find a line in the same column, and print what is in the line in front of the nodes on it. -/
def SharesLine
    (pairs : List (Stamp × Stamp))
    (below belowCopy : List (Tree × Option Nat))
    (line : Tree) : Prop :=
  ∃ origin copy column, below.find? (·.2.isSome) = some (origin, some column) ∧
    belowCopy.find? (·.2.isSome) = some (copy, some column) ∧
      forall id idCopy, (id, idCopy) ∈ pairs -> forall front, line.front? id = some front -> '\n' ∉ front ->
        origin.front? id = some front ∧ copy.front? idCopy = some front

/-- Two runs visit a node with lines among their frames; the second one visits an echo of what the first has made. -/
structure VisitedTwice
    (styles : Styles)
    (useCrlf : Option Bool)
    (below belowCopy : List (Tree × Option Nat))
    (around aroundCopy : Surroundings)
    (line old new copy again : Tree) : Prop where
  visited : VisitedBelow styles below around old new
  visitedCopy : VisitedBelow styles belowCopy aroundCopy copy again
  echoes : RelatedSomewhere (Relaid styles (Echoes styles useCrlf)) new copy
  agrees : AgreeFor new around aroundCopy
  canonical : new.IsCanonical
  unmarked : new.markers.toList = []
  distinct : new.ids.Nodup
  distinctCopy : copy.ids.Nodup
  nothing : NothingBeforeUnits old
  isJava : forall column?, dialectAmong ((old, column?) :: below) = .java
  isJavaCopy : forall column?, dialectAmong ((copy, column?) :: belowCopy) = .java
  onLines : alignsOnLines styles.indents line new = true
  atUnit : new.form.isUnit = true -> line = new
  shares : new.form.isUnit = false -> SharesLine (matched new copy) below belowCopy line

section Nodes

variable {styles : Styles} {useCrlf : Option Bool} {below belowCopy : List (Tree × Option Nat)}
variable {around aroundCopy : Surroundings} {line old new copy again : Tree}

/-- What is indented as a canonical tree has no units in it but itself. -/
theorem nothingBeforeUnits_of_canonical
    (related : Reindented styles around old new)
    (canonical : new.IsCanonical)
    (isEmpty : old.form.isUnit = true -> old.leading.isEmpty = true) :
    NothingBeforeUnits old := by
  intro node member isUnit
  induction old using Tree.induction generalizing around new with
  | step head form ih =>
      rcases Tree.eq_or_exists_of_mem_nodes member with rfl | ⟨child, isChild, isBelow⟩
      · exact isEmpty isUnit
      · obtain ⟨childNew, isChildNew, _, atChild⟩ := exists_of_forall₂ related.form.children.flip isChild
        refine ih child isChild atChild (canonical.part isChildNew).canonical (fun isUnitChild => ?_) isBelow
        rw [← atChild.form.isUnit_eq, canonical.root.fits.isUnit_child childNew isChildNew] at isUnitChild
        cases isUnitChild

namespace VisitedTwice

variable (twice : VisitedTwice styles useCrlf below belowCopy around aroundCopy line old new copy again)

include twice

theorem isUnit_old : old.form.isUnit = new.form.isUnit :=
  twice.visited.reindented.form.isUnit_eq.symm

theorem isUnit_copy : copy.form.isUnit = new.form.isUnit := by
  obtain ⟨_, echoes⟩ := twice.echoes
  exact (relaid_iff.1 echoes).form.isUnit_eq

theorem slot_old (around : Surroundings) : around.slot styles old.form = around.slot styles new.form :=
  (twice.visited.reindented.form.slot_eq around).symm

theorem slot_copy (around : Surroundings) : around.slot styles copy.form = around.slot styles new.form := by
  obtain ⟨_, echoes⟩ := twice.echoes
  exact (relaid_iff.1 echoes).form.slot_eq around

theorem feeds_copy : feeds (contents copy.leading) = feeds (contents new.leading) := by
  obtain ⟨_, echoes⟩ := twice.echoes
  exact (relaid_iff.1 echoes).leading.feeds

theorem startsLine_copy : copy.startsLine = new.startsLine :=
  contains_lastWhitespace_of_feeds twice.feeds_copy

theorem eq_of_startsLine (starts : new.startsLine = true) : aroundCopy = around := by
  rcases twice.agrees with same | ⟨inLine, -⟩
  · exact same
  · rw [containsNewline_of_lastWhitespace starts] at inLine
    cases inLine

/-- What is inside a node is the same in both runs. -/
theorem inside_eq :
    aroundCopy.inside styles copy.leading copy.form = around.inside styles old.leading old.form := by
  obtain ⟨_, echoes⟩ := twice.echoes
  have nesting := (relaid_iff.1 echoes).form.nestingOf_eq
  have lines := containsNewline_eq_of_feeds twice.feeds_copy
  have sameLine : aroundCopy.lineInside styles copy.leading copy.form = around.lineInside styles new.leading new.form := by
    rw [Surroundings.lineInside, Surroundings.lineInside, twice.isUnit_copy, lines, twice.slot_copy]
    rcases twice.agrees with rfl | ⟨inLine, element, rfl⟩
    · rfl
    · rw [inLine]
      rfl
  have sameChain : aroundCopy.chain = around.chain := by
    rcases twice.agrees with rfl | ⟨-, element, rfl⟩ <;> rfl
  rw [← twice.visited.reindented.inside_eq, Surroundings.inside, Surroundings.inside, sameLine, sameChain, nesting]

/-! ### The space before a node -/

theorem leading_eq
    (isInner : new.form.isUnit = false) :
    new.leading = Exact.indentTo styles.indents (around.slot styles new.form).column old.leading ∧
      again.leading = Exact.indentTo styles.indents (aroundCopy.slot styles new.form).column copy.leading := by
  constructor
  · rw [twice.visited.reindented.leading, Surroundings.indented_of_isInner (twice.isUnit_old.trans isInner), twice.slot_old]
  · rw [twice.visitedCopy.reindented.leading, Surroundings.indented_of_isInner (twice.isUnit_copy.trans isInner),
      twice.slot_copy]

/-- Nothing stands before a unit, in either run. -/
theorem leading_of_isUnit
    (isUnit : new.form.isUnit = true) :
    contents new.leading = ([], []) ∧ contents again.leading = ([], []) := by
  have isUnitOld := twice.isUnit_old.trans isUnit
  have isEmpty := twice.nothing old (Tree.mem_nodes_self old) isUnitOld
  have same : new.leading = old.leading :=
    Indents.leading_of_isUnit twice.visited.reindented isUnitOld isEmpty
  have nothing : contents new.leading = ([], []) := by
    rw [same]
    rw [Space.isEmpty, Bool.and_eq_true, List.isEmpty_iff, List.isEmpty_iff] at isEmpty
    exact Prod.ext isEmpty.1 isEmpty.2
  have plain : IsPlain (contents copy.leading) := by
    refine (isPlain_of_feeds twice.feeds_copy).2 ?_
    rw [nothing]
    rfl
  have cleared : contents (copy.leading.withWhitespace []) = ([], []) :=
    Prod.ext (whitespace_withWhitespace ..) ((comments_withWhitespace ..).trans ((isPlain_iff _).1 plain).1)
  refine ⟨nothing, ?_⟩
  rw [twice.visitedCopy.reindented.leading, Surroundings.indented, if_pos (twice.isUnit_copy.trans isUnit),
    indentTo_of_plain (by rw [cleared]; rfl), cleared]

/-- The space before a node is finished alike in both runs. -/
theorem leading : FinishAlike styles useCrlf new.form.leadingPlace new.leading again.leading := by
  cases isUnit : new.form.isUnit with
  | true =>
      obtain ⟨nothing, nothingAgain⟩ := twice.leading_of_isUnit isUnit
      have finished {space : Space} (none : contents space = ([], [])) :
          contents (finishSpace styles.indents useCrlf new.form.leadingPlace space) = ([], []) := by
        have leading : space.whitespace = [] := congrArg Prod.fst none
        rw [contents_finishSpace_of_plain _ _ _ (by rw [leading]; exact ⟨rfl, rfl⟩) (by rw [none]; rfl), leading, ite_self]
      rw [FinishAlike, finished nothing, finished nothingAgain]
  | false =>
      obtain ⟨moved, movedAgain⟩ := twice.leading_eq isUnit
      obtain ⟨_, echoes⟩ := twice.echoes
      have atSlot := (relaid_iff.1 echoes).leading
      have isInner : SpacePlace.IsInner new.form.leadingPlace := leadingPlace_isInner isUnit
      rcases twice.agrees with rfl | ⟨inLine, element, rfl⟩
      · exact atSlot.indented isInner.1 (fun isEof => absurd isEof isInner.2) moved movedAgain
      · rw [movedAgain]
        exact atSlot.indented_inLine isInner inLine

/-! ### The line of a node -/

theorem startColumn?_eq : startColumn? styles aroundCopy copy = startColumn? styles around old := by
  cases isUnit : new.form.isUnit with
  | true =>
      rw [startColumn?, startColumn?, if_pos (twice.isUnit_copy.trans isUnit), if_pos (twice.isUnit_old.trans isUnit)]
  | false =>
      have isUnitOld := twice.isUnit_old.trans isUnit
      have starts : old.leading.lastWhitespace.contains '\n' = new.startsLine :=
        (startsLine_of_reindented isUnitOld twice.visited.reindented).symm
      have startsCopy : copy.leading.lastWhitespace.contains '\n' = new.startsLine := twice.startsLine_copy
      rw [startColumn?, startColumn?, if_neg (ne_true_of_eq_false (twice.isUnit_copy.trans isUnit)),
        if_neg (ne_true_of_eq_false isUnitOld), starts, startsCopy]
      split
      · next starts => rw [twice.eq_of_startsLine starts, twice.slot_old, twice.slot_copy]
      · rfl

/-- A node in which a line starts is the line of what is inside it. -/
theorem lineInside_eq
    {column : Nat}
    (starts : startColumn? styles around old = some column) :
    line.lineInside new = new := by
  rw [Tree.lineInside]
  split
  · rfl
  · next goesOn =>
      cases isUnit : new.form.isUnit with
      | true => exact twice.atUnit isUnit
      | false =>
          have isUnitOld := twice.isUnit_old.trans isUnit
          rw [startsLine_of_reindented isUnitOld twice.visited.reindented, Tree.startsLine] at goesOn
          rw [startColumn?, if_neg (ne_true_of_eq_false isUnitOld), if_neg goesOn] at starts
          cases starts

/-- Inside a node both runs find the same line. -/
theorem sharesLine :
    SharesLine (matched new copy) ((old, startColumn? styles around old) :: below)
      ((copy, startColumn? styles aroundCopy copy) :: belowCopy) (line.lineInside new) := by
  rw [twice.startColumn?_eq]
  cases starts : startColumn? styles around old with
  | some column =>
      refine ⟨old, copy, column, rfl, rfl, fun id idCopy member front inFront oneLine => ?_⟩
      rw [twice.lineInside_eq starts] at inFront
      refine ⟨front?_of_regapped (twice.visited.reindented.breaksAlike twice.nothing) inFront oneLine, ?_⟩
      obtain ⟨_, echoes⟩ := twice.echoes
      obtain ⟨_, inFrontCopy, rfl⟩ := echoes.front_inLine Eq (fun _ _ => rfl) (fun first second => first ▸ second ▸ rfl)
        (fun _ _ _ echoes isInner oneLine => (echoes.inLine isInner oneLine).symm) twice.canonical twice.distinct
        twice.distinctCopy member inFront oneLine
      exact inFrontCopy
  | none =>
      have isInner : new.form.isUnit = false := by
        rw [← twice.isUnit_old, Bool.eq_false_iff]
        intro isUnit
        rw [startColumn?, if_pos isUnit] at starts
        cases starts
      have goesOn : ¬new.startsLine = true := by
        intro startsLine
        rw [startsLine_of_reindented (twice.isUnit_old.trans isInner) twice.visited.reindented, Tree.startsLine] at startsLine
        rw [startColumn?, if_neg (ne_true_of_eq_false (twice.isUnit_old.trans isInner)), if_pos startsLine] at starts
        cases starts
      rw [Tree.lineInside, if_neg goesOn]
      exact twice.shares isInner

/-! ### Parts -/

/-- The parts of a node are visited twice. -/
theorem part
    {aroundPart aroundEcho aroundPartCopy : Surroundings}
    {part partNew partCopy partAgain : Tree}
    (visited : VisitedBelow styles ((old, startColumn? styles around old) :: below) aroundPart part partNew)
    (echo : PartsOf new copy (Relaid styles (Echoes styles useCrlf)) aroundEcho partNew partCopy)
    (visitedCopy : VisitedBelow styles ((copy, startColumn? styles aroundCopy copy) :: belowCopy) aroundPartCopy partCopy
      partAgain)
    (agrees : AgreeFor partNew aroundPart aroundPartCopy) :
    VisitedTwice styles useCrlf ((old, startColumn? styles around old) :: below)
      ((copy, startColumn? styles aroundCopy copy) :: belowCopy) aroundPart aroundPartCopy (line.lineInside new) part partNew
      partCopy partAgain := by
  have asPart := twice.canonical.part echo.isPart
  have isInner : partNew.form.isUnit = false := twice.canonical.root.fits.isUnit_child partNew echo.isPart
  have isInnerOld : part.form.isUnit = false := visited.reindented.form.isUnit_eq.symm.trans isInner
  have isInnerCopy : partCopy.form.isUnit = false := (relaid_iff.1 echo.related).form.isUnit_eq.trans isInner
  exact {
    visited
    visitedCopy
    echoes := ⟨_, echo.related⟩
    agrees
    canonical := asPart.canonical
    unmarked := asPart.unmarked
    distinct := nodup_ids_of_mem_nodes twice.distinct (Tree.mem_nodes_of_mem_children echo.isPart (Tree.mem_nodes_self _))
    distinctCopy :=
      nodup_ids_of_mem_nodes twice.distinctCopy (Tree.mem_nodes_of_mem_children echo.isPartNew (Tree.mem_nodes_self _))
    nothing := nothingBeforeUnits_of_canonical visited.reindented asPart.canonical fun isUnit => by
      rw [isInnerOld] at isUnit
      cases isUnit
    isJava := fun _ => by rw [dialectAmong_cons_of_isInner isInnerOld, twice.isJava]
    isJavaCopy := fun _ => by rw [dialectAmong_cons_of_isInner isInnerCopy, twice.isJavaCopy]
    onLines := (alignsOnLines_iff.1 twice.onLines).2 partNew echo.isPart
    atUnit := fun isUnit => by
      rw [isInner] at isUnit
      cases isUnit
    shares := fun _ => by
      obtain ⟨origin, lineCopy, column, nearest, nearestCopy, fronts⟩ := twice.sharesLine
      exact ⟨origin, lineCopy, column, nearest, nearestCopy, fun id idCopy member => fronts id idCopy (echo.matched member)⟩ }

/-- The first element of a list in a line sets the same column in both runs. -/
theorem firstElementColumn_eq
    (isInner : new.form.isUnit = false)
    {owner ownerCopy : TreeCursor}
    (atLines : lines owner = below)
    (atLinesCopy : lines ownerCopy = belowCopy)
    (measured : new.startsLine = true ∨ ∃ front, line.front? new.id = some front ∧ '\n' ∉ front)
    (columns : ListColumns) :
    Exact.firstElementColumn styles.indents columns ownerCopy copy again =
      Exact.firstElementColumn styles.indents columns owner old new := by
  obtain ⟨moved, movedAgain⟩ := twice.leading_eq isInner
  have startsAgain : again.startsLine = new.startsLine := by
    rw [Tree.startsLine, movedAgain, contains_lastWhitespace_indentTo]
    exact twice.startsLine_copy
  cases starts : new.startsLine with
  | true =>
      have startsLast : new.leading.lastWhitespace.contains '\n' = true := starts
      have startsLastAgain : again.leading.lastWhitespace.contains '\n' = true := startsAgain.trans starts
      rw [Exact.firstElementColumn, Exact.firstElementColumn, if_pos startsLast, if_pos startsLastAgain]
      rw [moved, contains_lastWhitespace_indentTo] at startsLast
      rw [movedAgain, contains_lastWhitespace_indentTo] at startsLastAgain
      rw [moved, movedAgain, lastWhitespace_indentTo, lastWhitespace_indentTo,
        indentWidth_shiftWhitespace (List.contains_iff_mem.1 startsLast),
        indentWidth_shiftWhitespace (List.contains_iff_mem.1 startsLastAgain), twice.eq_of_startsLine starts]
  | false =>
      obtain ⟨front, inFront, oneLine⟩ := measured.resolve_left (ne_true_of_eq_false starts)
      obtain ⟨origin, lineCopy, column, nearest, nearestCopy, fronts⟩ := twice.shares isInner
      obtain ⟨inFrontOld, inFrontCopy⟩ := fronts _ _ (matched_self new copy) front inFront oneLine
      rw [twice.visited.reindented.id_eq] at inFrontOld
      have isJava : dialectAmong (lines owner) = .java := by
        rw [atLines, ← dialectAmong_cons_of_isInner (twice.isUnit_old.trans isInner), twice.isJava none]
      have isJavaCopy : dialectAmong (lines ownerCopy) = .java := by
        rw [atLinesCopy, ← dialectAmong_cons_of_isInner (twice.isUnit_copy.trans isInner), twice.isJavaCopy none]
      rw [firstElementColumn_of_inLine (by rw [atLines]; exact nearest) isJava starts inFrontOld oneLine,
        firstElementColumn_of_inLine (by rw [atLinesCopy]; exact nearestCopy) isJavaCopy (startsAgain.trans starts) inFrontCopy
          oneLine]

theorem setsAgain
    {enclosing : Nat}
    {place : ContainerPlace}
    {list : Container Tree}
    (aligned : alignedList? styles.indents new.form = some list) :
    let inner := (old, startColumn? styles around old) :: below
    let innerCopy := (copy, startColumn? styles aroundCopy copy) :: belowCopy
    SetsAgain (VisitedBelow styles inner) (VisitedBelow styles innerCopy)
      (PartsOf new copy (Relaid styles (Echoes styles useCrlf))) (measuredBelow styles.indents inner)
      (measuredBelow styles.indents innerCopy) (Exact.listColumns styles.indents enclosing place) list.padded := by
  intro inner innerCopy
  have onLine := (alignsOnLines_iff.1 twice.onLines).1
  rw [alignsOnLine, aligned, Option.all_some, Bool.or_eq_true] at onLine
  refine onLine.imp id fun measured => ?_
  rintro _ _ _ part _ partCopy partAgain _ _ ⟨padded, isHead, rfl⟩ visited echo visitedCopy agrees ⟨owner, atLines, rfl⟩
    ⟨ownerCopy, atLinesCopy, rfl⟩
  have isInner := twice.canonical.root.fits.isUnit_child padded.element echo.isPart
  refine (twice.part visited echo visitedCopy agrees).firstElementColumn_eq isInner atLines atLinesCopy ?_ _
  rw [Container.elements, RightPadded.elements, List.head?_map, Option.mem_def.1 isHead, Option.map_some, Option.all_some,
    Bool.or_eq_true] at measured
  refine measured.imp_right fun goesOn => ?_
  obtain ⟨front, inFront, oneLine⟩ := (Option.any_eq_true ..).1 goesOn
  exact ⟨front, inFront, by simpa using oneLine⟩

end VisitedTwice

/-! ## Trees -/

/-- What two runs make of a tree, and of an echo of what the first one has made. -/
def MadeTwice
    (styles : Styles)
    (useCrlf : Option Bool)
    (new again : Tree) : Prop :=
  ∃ below belowCopy around aroundCopy line old copy,
    VisitedTwice styles useCrlf below belowCopy around aroundCopy line old new copy again

theorem VisitedTwice.changed
    (twice : VisitedTwice styles useCrlf below belowCopy around aroundCopy line old new copy again) :
    ChangedNode (FinishAlike styles useCrlf) (MadeTwice styles useCrlf) new again := by
  obtain ⟨_, echoes⟩ := twice.echoes
  have unmarkedAgain : again.markers.toList = [] := by
    rw [twice.visitedCopy.reindented.markers]
    exact (relaid_iff.1 echoes).unmarkedNew
  have rerun := twice.visitedCopy.form
  dsimp only at rerun
  rw [twice.inside_eq] at rerun
  refine ⟨twice.leading, twice.unmarked, changedMarkers_of_unmarked twice.unmarked unmarkedAgain, ?_,
    twice.canonical.root.fits⟩
  refine twice.visited.form.replayed (fun visited echo visitedCopy agrees => ?_) echoes.parts rerun (fun isUnit => ?_)
    fun _ _ _ aligned => twice.setsAgain aligned
  · exact ⟨_, _, _, _, _, _, _, twice.part visited echo visitedCopy agrees⟩
  · exact if_pos (twice.isUnit_old.trans isUnit)

/-- Spaces that two runs leave are finished alike. -/
theorem changed_of_visitedTwice
    (twice : VisitedTwice styles useCrlf below belowCopy around aroundCopy line old new copy again) :
    Changed styles (FinishAlike styles useCrlf) new again := by
  refine changed_of_nodes (MadeTwice styles useCrlf) ?_ ⟨_, _, _, _, _, _, _, twice⟩
  rintro new again ⟨_, _, _, _, _, _, _, twice⟩
  exact twice.changed

end Nodes

end Format
end Lossless
