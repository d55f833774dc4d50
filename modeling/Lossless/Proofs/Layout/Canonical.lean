import Lossless.Proofs.Java.FirstWord
import Lossless.Proofs.Layout.Compose

/-!
# Layouts keep trees canonical

A layout keeps a tree canonical when it makes gaps of gaps, and when it neither fills nor empties a space that
the spacing style leaves alone. Kinds and tokens stay, and with them the conditions on the syntax.
-/

namespace Lossless
namespace Format

open Java

variable {styles : Styles} {gap : Slot -> Space -> Space -> Prop}
variable {child : Surroundings -> Tree -> Tree -> Prop}
variable {inside : Interior} {around : Surroundings} {old new : Tree}

/-! ## Children -/

section Children

theorem RelaidStatements.exists_old
    {slot : Slot}
    {olds news : List (RightPadded Tree)}
    (related : RelaidStatements gap child around slot olds news)
    {padded : RightPadded Tree}
    (member : padded ∈ news) :
    ∃ before, before ∈ olds ∧ RelaidPadded gap child around slot before padded := by
  induction related with
  | nil => cases member
  | cons first _ ih =>
      rcases List.mem_cons.1 member with rfl | later
      · exact ⟨_, List.mem_cons_self .., first⟩
      · obtain ⟨before, inside, related⟩ := ih later
        exact ⟨before, List.mem_cons_of_mem _ inside, related⟩

/-- Every child of the one form is related to one of the other. -/
theorem RelaidForm.exists_child
    {old new : Form Tree}
    (related : RelaidForm styles gap child inside old new)
    {tree : Tree}
    (member : tree ∈ new.children) :
    ∃ before around, before ∈ old.children ∧ child around before tree := by
  obtain ⟨before, isOld, around, related⟩ := exists_of_forall₂ related.children member
  exact ⟨before, around, isOld, related⟩

end Children

/-! ## Kinds and tokens -/

/-- Forms that pass the same tests. -/
structure SameKind (old new : Form Tree) : Prop where
  isParentheses : new.isParentheses = old.isParentheses
  isIdentifier : new.isIdentifier = old.isIdentifier
  isOtherwise : new.isOtherwise = old.isOtherwise
  isBlock : new.isBlock = old.isBlock
  isEmpty : new.isEmpty = old.isEmpty
  isWords : new.isWords = old.isWords
  isOperand : new.isOperand = old.isOperand
  isValue : new.isValue = old.isValue
  isNumeral : new.isNumeral = old.isNumeral
  isSelfTerminated : new.isSelfTerminated = old.isSelfTerminated
  tightness : new.tightness = old.tightness
  text : new.text = old.text

theorem SameKind.isChain
    {old new : Form Tree}
    (same : SameKind old new) :
    new.isChain = old.isChain := by
  rw [Form.isChain, Form.isChain, same.isOperand, same.tightness]

theorem relaidOption_isSome
    {relation : Tree -> Tree -> Prop}
    {old new : Option Tree}
    (related : Option.Rel relation old new) :
    new.isSome = old.isSome := by
  cases related <;> rfl

theorem RelaidForm.sameKind
    {old new : Form Tree}
    (related : RelaidForm styles gap child inside old new) :
    SameKind old new := by
  cases related with
  | binary _ same => constructor <;> first | rfl | exact congrArg Operator.precedence same.symm
  | declaration _ _ _ body =>
      constructor <;> first | rfl | exact relaidOption_isSome body
  | _ => constructor <;> rfl

theorem Relaid.sameKind
    (related : Relaid styles gap around old new) :
    SameKind old.form new.form :=
  (relaid_iff.1 related).form.sameKind

/-- A layout leaves the first token alone. -/
theorem Relaid.firstToken_eq
    (related : Relaid styles gap around old new) :
    new.firstToken = old.firstToken := by
  induction old using Tree.induction generalizing around new with
  | step head form ih =>
      obtain ⟨head', form'⟩ := new
      have forms : RelaidForm styles gap (Relaid styles gap)
          (around.interior styles head.leading form) form form' := (relaid_iff.1 related).form
      rw [Tree.firstToken_eq, Tree.firstToken_eq, Tree.form_node, Tree.form_node]
      cases forms with
      | assignment target => exact ih _ (by simp [Form.children]) target
      | binary _ _ _ _ left => exact ih _ (by simp [Form.children]) left
      | fieldAccess target => exact ih _ (by simp [Form.children]) target
      | plainCall name => exact ih _ (by simp [Form.children]) name
      | call _ receiver => exact ih _ (by simp [Form.children]) receiver.element
      | declaration returnType name =>
          cases returnType with
          | none => exact ih _ (by simp [Form.children]) name
          | some returnType => exact ih _ (by simp [Form.children]) returnType
      | _ => rfl

/-- A layout leaves the end of a tree as open as it was. -/
theorem Relaid.endsOpen_eq
    (related : Relaid styles gap around old new) :
    new.endsOpen = old.endsOpen := by
  induction old using Tree.induction generalizing around new with
  | step head form ih =>
      obtain ⟨head', form'⟩ := new
      have forms : RelaidForm styles gap (Relaid styles gap)
          (around.interior styles head.leading form) form form' := (relaid_iff.1 related).form
      rw [Tree.endsOpen_eq, Tree.endsOpen_eq, Tree.form_node, Tree.form_node]
      cases forms with
      | conditional _ _ alternative =>
          cases alternative with
          | none => rfl
          | some alternative => exact ih _ (by simp [Form.children]) alternative
      | otherwise body => exact ih _ (by simp [Form.children]) body.element
      | _ => rfl

theorem Relaid.firstWord_eq
    (related : Relaid styles gap around old new) :
    new.firstWord = old.firstWord := by
  rw [Tree.firstWord, Tree.firstWord, related.firstToken_eq]

theorem Relaid.startsWord_eq
    (related : Relaid styles gap around old new) :
    new.startsWord = old.startsWord := by
  rw [Tree.startsWord, Tree.startsWord, related.firstWord_eq]

theorem Relaid.isStatement_eq
    (related : Relaid styles gap around old new) :
    new.isStatement = old.isStatement := by
  have forms := (relaid_iff.1 related).form
  have firstWord := related.firstWord_eq
  have isValue := related.sameKind.isValue
  unfold Tree.isStatement
  revert isValue
  generalize old.form = form at forms
  generalize new.form = form' at forms
  intro isValue
  cases forms <;> simp_all

/-! ## The condition on the syntax -/

section Fits

variable {slot : Slot} {layout : ListLayout}

theorem RelaidPadded.fitsStatement
    {old new : RightPadded Tree}
    (related : RelaidPadded gap (Relaid styles gap) around slot old new)
    (fits : FitsStatement old) :
    FitsStatement new := by
  refine ⟨?_, related.unmarkedNew⟩
  rw [related.element.isStatement_eq]
  exact fits.1

theorem RelaidStatements.noneCaptured_eq
    {olds news : List (RightPadded Tree)}
    (related : RelaidStatements gap (Relaid styles gap) around slot olds news) :
    noneCaptured news = noneCaptured olds := by
  induction related with
  | nil => rfl
  | cons first others ih =>
      cases others with
      | nil => rfl
      | cons second _ =>
          rw [noneCaptured, noneCaptured, ih, first.element.endsOpen_eq, second.element.firstWord_eq]

theorem RelaidStatements.fits
    {olds news : List (RightPadded Tree)}
    (related : RelaidStatements gap (Relaid styles gap) around slot olds news)
    (fits : FitStatements olds) :
    FitStatements news := by
  refine ⟨fun padded member => ?_, ?_⟩
  · obtain ⟨before, isOld, padded⟩ := related.exists_old member
    exact padded.fitsStatement (fits.1 before isOld)
  · rw [related.noneCaptured_eq]
    exact fits.2

theorem RelaidElements.ne_nil
    {blank : Bool}
    {olds news : List (RightPadded Tree)}
    (related : RelaidElements gap child layout inside blank olds news) :
    olds ≠ [] ∧ news ≠ [] := by
  cases related <;> simp

theorem fitElements_cons
    {test : Form Tree -> Bool}
    {padded : RightPadded Tree}
    {rest : List (RightPadded Tree)}
    (notLast : rest ≠ []) :
    FitElements test (padded :: rest) ↔
      test padded.element.form = true ∧ padded.markers.toList = [] ∧ FitElements test rest := by
  cases rest with
  | nil => exact absurd rfl notLast
  | cons second more => exact Iff.rfl

section Elements

variable {test : Form Tree -> Bool}
variable (same : forall {old new}, SameKind old new -> test new = test old)

include same

theorem RelaidLast.fits
    {old new : RightPadded Tree}
    (related : RelaidLast gap (Relaid styles gap) layout around old new)
    (fits : test old.element.form = true) :
    test new.element.form = true ∧ IsTrailing new.markers := by
  have kind : test new.element.form = true := by
    rw [same related.element.sameKind]
    exact fits
  refine ⟨kind, ?_⟩
  cases related with
  | plain padded => exact .inl padded.unmarkedNew
  | comma _ _ _ _ only isComma => exact .inr ⟨_, _, only, isComma⟩

theorem RelaidElements.fits
    {blank : Bool}
    {olds news : List (RightPadded Tree)}
    (related : RelaidElements gap (Relaid styles gap) layout inside blank olds news)
    (fits : FitElements test olds) :
    FitElements test news := by
  induction related with
  | last last => exact last.fits same fits.1
  | cons first others ih =>
      obtain ⟨notLast, notLastNew⟩ := others.ne_nil
      obtain ⟨kind, -, fitsOthers⟩ := (fitElements_cons notLast).1 fits
      refine (fitElements_cons notLastNew).2 ⟨?_, first.unmarkedNew, ih fitsOthers⟩
      rw [same first.element.sameKind]
      exact kind

theorem RelaidContainer.fits
    {old new : Container Tree}
    (related : RelaidContainer styles gap (Relaid styles gap) layout inside old new)
    (fits : FitsContainer test old) :
    FitsContainer test new := by
  refine ⟨related.unmarkedNew, ?_⟩
  rcases related.padded with none | ⟨some, -, elements⟩
  · exact .inl none.isNone.2
  · exact .inr (elements.fits same (fits.2.resolve_left some))

end Elements

/-- A layout leaves the syntax as the grammar puts it. -/
theorem RelaidForm.fits
    {old new : Form Tree}
    (related : RelaidForm styles gap (Relaid styles gap) inside old new)
    (fits : old.Fits) :
    new.Fits := by
  cases related with
  | compilationUnit statements => exact ⟨fits.1, statements.fits fits.2⟩
  | block statements => exact statements.fits fits
  | conditional condition consequence alternative =>
      refine ⟨?_, consequence.fitsStatement fits.2.1, ?_⟩
      · rw [condition.sameKind.isParentheses]
        exact fits.1
      · cases alternative with
        | none => simp
        | some alternative =>
            obtain ⟨isOtherwise, closed⟩ := fits.2.2 _ rfl
            rintro _ ⟨⟩
            rw [alternative.sameKind.isOtherwise, consequence.element.endsOpen_eq]
            exact ⟨isOtherwise, closed⟩
  | otherwise body => exact body.fitsStatement fits
  | returns value =>
      cases value with
      | none => simp [Form.Fits]
      | some value =>
          rintro _ ⟨⟩
          rw [value.sameKind.isValue]
          exact fits _ rfl
  | assignment target value =>
      refine ⟨?_, ?_, value.unmarkedNew, fits.2.2.2⟩
      · rw [target.sameKind.isOperand]
        exact fits.1
      · rw [value.element.sameKind.isValue]
        exact fits.2.1
  | binary _ same _ unmarkedNew left _ right =>
      obtain ⟨fitsLeft, fitsRight, -, untagged⟩ := fits
      rw [same] at fitsLeft fitsRight
      refine ⟨?_, ?_, unmarkedNew, untagged⟩
      · rw [left.sameKind.isOperand, left.sameKind.tightness]
        exact fitsLeft
      · rw [right.sameKind.isOperand, right.sameKind.tightness]
        exact fitsRight
  | identifier => exact fits
  | literal => exact fits
  | fieldAccess target name =>
      refine ⟨?_, ?_, name.unmarkedNew, fits.2.2.2⟩
      · rw [target.sameKind.isChain]
        exact fits.1
      · rw [name.element.sameKind.isIdentifier]
        exact fits.2.1
  | plainCall name list =>
      refine ⟨?_, ?_, list.fits SameKind.isValue fits.2.2.1, fits.2.2.2⟩
      · change isLiteralWord _ = false
        rw [name.sameKind.text]
        exact fits.1
      · rw [name.sameKind.isIdentifier]
        exact fits.2.1
  | call _ receiver name list =>
      refine ⟨⟨?_, receiver.unmarkedNew⟩, ?_, list.fits SameKind.isValue fits.2.2.1, fits.2.2.2⟩
      · rw [receiver.element.sameKind.isChain]
        exact fits.1.1
      · rw [name.sameKind.isIdentifier]
        exact fits.2.1
  | declaration returnType name list body =>
      obtain ⟨⟨present, rfl, isWords, keyword⟩, isIdentifier, fitsList, isBlock⟩ := fits
      refine ⟨?_, ?_, list.fits SameKind.isWords fitsList, ?_⟩
      · cases returnType with
        | some returnType =>
            refine ⟨_, rfl, ?_, ?_⟩
            · rw [returnType.sameKind.isWords]
              exact isWords
            · rw [returnType.firstWord_eq]
              exact keyword
      · rw [name.sameKind.isIdentifier]
        exact isIdentifier
      · cases body with
        | none => simp
        | some body =>
            rintro _ ⟨⟩
            rw [body.sameKind.isBlock]
            exact isBlock _ rfl
  | parentheses inner =>
      refine ⟨?_, inner.unmarkedNew⟩
      rw [inner.element.sameKind.isValue]
      exact fits.1
  | collection list => exact ⟨fits.1, list.fits SameKind.isValue fits.2.1, fits.2.2⟩
  | empty => trivial
  | unknown => exact fits

end Fits

/-! ## The condition on the spaces -/

/-- Neither before nor behind a whole unit. -/
def SpacePlace.IsInner (place : SpacePlace) : Prop :=
  place ≠ .compilationUnitPrefix ∧ place ≠ .compilationUnitEof

/-- What a layout has to keep of every space, so that canonical trees stay canonical. -/
structure KeepsGaps (gap : Slot -> Space -> Space -> Prop) : Prop where
  isGap : forall {slot old new}, gap slot old new -> slot.place ≠ .compilationUnitEof ->
    old.IsGap -> new.IsGap
  eof : forall {slot old new}, gap slot old new -> slot.place = .compilationUnitEof ->
    old.IsGapTo true -> new.IsGapTo true
  isEmpty : forall {slot old new}, gap slot old new -> SpacePlace.IsInner slot.place -> slot.blank = none ->
    new.isEmpty = old.isEmpty
  stays : forall {slot old new}, gap slot old new -> slot.place ≠ .compilationUnitEof ->
    slot.blank ≠ some true -> old.isEmpty = true -> new.isEmpty = true
  startsComment : forall {slot old new}, gap slot old new -> SpacePlace.IsInner slot.place ->
    old.startsComment = false -> new.startsComment = false

theorem leadingPlace_ne_eof (form : Form Tree) : form.leadingPlace ≠ .compilationUnitEof := by
  cases form <;> simp [Form.leadingPlace]

theorem leadingPlace_isInner
    {form : Form Tree}
    (noUnit : form.isUnit = false) :
    SpacePlace.IsInner form.leadingPlace := by
  refine ⟨?_, leadingPlace_ne_eof form⟩
  cases form with
  | compilationUnit => cases noUnit
  | _ => simp [Form.leadingPlace]

theorem isInner_after (place : ElementPlace) : SpacePlace.IsInner place.after := by
  cases place <;> exact ⟨nofun, nofun⟩

theorem isInner_beforeOperand (place : OperandPlace) : SpacePlace.IsInner place.before := by
  cases place <;> exact ⟨nofun, nofun⟩

theorem isInner_beforeList (place : ContainerPlace) : SpacePlace.IsInner place.before := by
  cases place <;> exact ⟨nofun, nofun⟩

/-- A statement that starts with a word is no block, and no part of a conditional. -/
theorem isBlock_of_startsWord
    {tree : Tree}
    (isStatement : tree.isStatement = true)
    (startsWord : tree.startsWord = true) :
    tree.form.isBlock = false ∧ tree.form.isOtherwise = false := by
  have notPart : Text.isIdentifierPart '\x7b' = false :=
    isIdentifierPart_of_punctuation (by decide)
  revert isStatement startsWord
  rw [Tree.startsWord, Tree.firstWord, Tree.firstToken_eq, Tree.isStatement]
  cases tree.form <;> simp [Form.isBlock, Form.isOtherwise, Form.isValue, Form.isOperand, notPart]

theorem slot_blank
    {form : Form Tree}
    (alone : around.blank = none)
    (noBlock : form.isBlock = false)
    (noOtherwise : form.isOtherwise = false) :
    (around.slot styles form).blank = none := by
  cases form with
  | block => cases noBlock
  | otherwise => cases noOtherwise
  | _ => exact alone

section Keeps

variable (keeps : KeepsGaps gap)

include keeps

theorem Relaid.isGap_leading
    (related : Relaid styles gap around old new)
    (isGap : old.leading.IsGap) :
    new.leading.IsGap :=
  keeps.isGap (relaid_iff.1 related).leading (leadingPlace_ne_eof old.form) isGap

/-- The space before a node stays empty, or stays filled, where the spacing style leaves it alone. -/
theorem Relaid.isEmpty_leading
    (related : Relaid styles gap around old new)
    (alone : around.blank = none)
    (noBlock : old.form.isBlock = false)
    (noOtherwise : old.form.isOtherwise = false)
    (noUnit : old.form.isUnit = false) :
    new.leading.isEmpty = old.leading.isEmpty :=
  keeps.isEmpty (relaid_iff.1 related).leading (leadingPlace_isInner noUnit)
    (slot_blank alone noBlock noOtherwise)

/-- The same of a value or of words. -/
theorem Relaid.isEmpty_leading_of_kind
    (related : Relaid styles gap around old new)
    (alone : around.blank = none)
    (kind : old.form.isValue = true ∨ old.form.isWords = true) :
    new.leading.isEmpty = old.leading.isEmpty := by
  obtain ⟨noBlock, noOtherwise⟩ : old.form.isBlock = false ∧ old.form.isOtherwise = false :=
    kind.elim Form.isBlock_of_isValue Form.isBlock_of_isWords
  exact related.isEmpty_leading keeps alone noBlock noOtherwise
    (kind.elim Form.isUnit_of_isValue Form.isUnit_of_isWords)

theorem RelaidPadded.closes
    {slot : Slot}
    {old new : RightPadded Tree}
    (related : RelaidPadded gap (Relaid styles gap) around slot old new)
    (inner : SpacePlace.IsInner slot.place)
    (alone : slot.blank = none)
    (closes : Closes old) :
    Closes new := by
  unfold Closes at closes ⊢
  rw [related.element.sameKind.isSelfTerminated, related.element.sameKind.isEmpty,
    keeps.isEmpty related.after inner alone]
  exact closes

theorem RelaidStatements.closes
    {slot : Slot}
    {olds news : List (RightPadded Tree)}
    (related : RelaidStatements gap (Relaid styles gap) around slot olds news)
    (inner : SpacePlace.IsInner slot.place)
    (alone : slot.blank = none)
    (closes : forall padded, padded ∈ olds -> Closes padded) :
    forall padded, padded ∈ news -> Closes padded := by
  intro padded member
  obtain ⟨before, isOld, related⟩ := related.exists_old member
  exact related.closes keeps inner alone (closes before isOld)

theorem RelaidStatements.gaps
    {slot : Slot}
    {olds news : List (RightPadded Tree)}
    (related : RelaidStatements gap child around slot olds news)
    (notEof : slot.place ≠ .compilationUnitEof)
    (gaps : forall padded, padded ∈ olds -> padded.after.IsGap) :
    forall padded, padded ∈ news -> padded.after.IsGap := by
  intro padded member
  obtain ⟨before, isOld, related⟩ := related.exists_old member
  exact keeps.isGap related.after notEof (gaps before isOld)

omit keeps in
theorem after_isInner (place : ContainerPlace) : SpacePlace.IsInner place.element.after := by
  cases place <;> exact ⟨by decide, by decide⟩

omit keeps in
theorem after_ne_eof (place : ContainerPlace) : place.element.after ≠ .compilationUnitEof :=
  (after_isInner place).2

theorem RelaidPadded.gaps
    {slot : Slot}
    {old new : RightPadded Tree}
    (related : RelaidPadded gap child around slot old new)
    (notEof : slot.place ≠ .compilationUnitEof)
    (gaps : forall space, space ∈ elementGaps [old] -> space.IsGap) :
    forall space, space ∈ elementGaps [new] -> space.IsGap := by
  have noComma : new.markers.findAll Fact.trailingComma? = [] := by
    simp [Markers.findAll, related.unmarkedNew]
  intro space member
  obtain rfl : space = new.after := by simpa [elementGaps, noComma] using member
  exact keeps.isGap related.after notEof (gaps old.after (by simp [elementGaps]))

theorem RelaidLast.gaps
    {layout : ListLayout}
    {old new : RightPadded Tree}
    (related : RelaidLast gap child layout around old new)
    (gaps : forall space, space ∈ elementGaps [old] -> space.IsGap) :
    forall space, space ∈ elementGaps [new] -> space.IsGap := by
  cases related with
  | plain padded => exact padded.gaps keeps (after_ne_eof _) gaps
  | comma _ after only isComma onlyNew isCommaNew suffix =>
      have commas := findAll_of_comma only isComma
      have commasNew := findAll_of_comma onlyNew isCommaNew
      intro space member
      simp only [elementGaps, List.flatMap_cons, List.flatMap_nil, commas, commasNew, List.append_nil,
        List.mem_cons, List.not_mem_nil, or_false] at gaps member
      rcases member with rfl | rfl
      · exact keeps.isGap after (after_ne_eof _) (gaps _ (.inl rfl))
      · exact keeps.isGap suffix (by simp [ListLayout.beforeClosing]) (gaps _ (.inr rfl))

theorem RelaidElements.gaps
    {layout : ListLayout}
    {blank : Bool}
    {olds news : List (RightPadded Tree)}
    (related : RelaidElements gap child layout inside blank olds news)
    (gaps : forall space, space ∈ elementGaps olds -> space.IsGap) :
    forall space, space ∈ elementGaps news -> space.IsGap := by
  induction related with
  | last last => exact last.gaps keeps gaps
  | cons first others ih =>
      rw [elementGaps, List.flatMap_cons] at gaps ⊢
      have atFirst := first.gaps keeps (after_ne_eof _) fun space member =>
        gaps space (List.mem_append_left _ (by simpa [elementGaps] using member))
      have atOthers := ih fun space member => gaps space (List.mem_append_right _ member)
      intro space member
      rcases List.mem_append.1 member with here | later
      · exact atFirst space (by simpa [elementGaps] using here)
      · exact atOthers space later

theorem RelaidContainer.gaps
    {layout : ListLayout}
    {old new : Container Tree}
    (related : RelaidContainer styles gap child layout inside old new)
    (gaps : forall space, space ∈ old.before :: elementGaps old.padded -> space.IsGap) :
    forall space, space ∈ new.before :: elementGaps new.padded -> space.IsGap := by
  obtain ⟨before, olds, markers⟩ := old
  obtain ⟨before', news, markers'⟩ := new
  have notEof : layout.place.before ≠ .compilationUnitEof := by
    cases layout.place <;> decide
  refine List.forall_mem_cons.2 ⟨keeps.isGap related.before notEof (gaps _ (List.mem_cons_self ..)), ?_⟩
  have atElements := (List.forall_mem_cons.1 gaps).2
  rcases related.padded with none | ⟨-, -, elements⟩
  · revert atElements
    cases none with
    | only _ _ padded => exact padded.gaps keeps (after_ne_eof _)
  · exact elements.gaps keeps atElements

theorem RelaidContainer.closes
    {layout : ListLayout}
    {old new : Container Tree}
    (related : RelaidContainer styles gap child layout inside old new)
    (closes : ClosesList old) :
    ClosesList new := by
  obtain ⟨before, olds, markers⟩ := old
  obtain ⟨before', news, markers'⟩ := new
  intro isNone
  rcases related.padded with none | ⟨-, some, -⟩
  · have closed := closes none.isNone.1
    revert closed
    cases none with
    | only _ _ padded =>
        intro closed only member
        obtain rfl := List.mem_singleton.1 member
        rw [keeps.isEmpty padded.after (after_isInner _) rfl]
        exact closed _ (List.mem_singleton_self _)
  · exact absurd isNone some

/-- A layout leaves the spaces empty that tokens leave no room for, and keeps words apart. -/
theorem RelaidForm.separates
    {old new : Form Tree}
    (related : RelaidForm styles gap (Relaid styles gap) inside old new)
    (fits : old.Fits)
    (separates : old.Separates) :
    new.Separates := by
  cases related with
  | compilationUnit statements =>
      exact statements.closes keeps (by simp [Interior.edge, SpacePlace.IsInner]) rfl separates
  | block statements => exact statements.closes keeps (by simp [Interior.edge, SpacePlace.IsInner]) rfl separates
  | conditional _ consequence =>
      exact consequence.closes keeps (by simp [Interior.edge, SpacePlace.IsInner]) rfl separates
  | otherwise body =>
      refine ⟨body.closes keeps (by simp [Interior.edge, SpacePlace.IsInner]) rfl separates.1, fun startsWord => ?_⟩
      rw [body.element.startsWord_eq] at startsWord
      obtain ⟨noBlock, noOtherwise⟩ := isBlock_of_startsWord fits.1 startsWord
      rw [body.element.isEmpty_leading keeps rfl noBlock noOtherwise (isUnit_of_isStatement fits.1)]
      exact separates.2 startsWord
  | returns value =>
      cases value with
      | none => simp [Form.Separates]
      | some value =>
          rintro _ ⟨⟩
          intro startsWord
          rw [value.startsWord_eq] at startsWord
          rw [value.isEmpty_leading_of_kind keeps rfl (.inl (fits _ rfl))]
          exact separates _ rfl startsWord
  | assignment target =>
      change Space.isEmpty _ = true
      rw [target.isEmpty_leading_of_kind keeps rfl (.inl (Form.isValue_of_isOperand fits.1))]
      exact separates
  | binary _ same _ _ left _ right =>
      refine ⟨?_, fun isDivision => ?_⟩
      · rw [left.isEmpty_leading_of_kind keeps rfl (.inl (Form.isValue_of_isOperand fits.1.1))]
        exact separates.1
      · rw [← same] at isDivision
        have inner := leadingPlace_isInner (Form.isUnit_of_isValue (Form.isValue_of_isOperand fits.2.1.1))
        exact keeps.startsComment (relaid_iff.1 right).leading inner (separates.2 isDivision)
  | identifier => trivial
  | literal => trivial
  | fieldAccess target name =>
      refine ⟨?_, fun isNumeral => ?_⟩
      · rw [target.isEmpty_leading_of_kind keeps rfl (.inl (Form.isValue_of_isChain fits.1))]
        exact separates.1
      · rw [target.sameKind.isNumeral] at isNumeral
        rw [keeps.isEmpty name.before (by simp [Interior.gap, SpacePlace.IsInner]) rfl]
        exact separates.2 isNumeral
  | plainCall name list =>
      refine ⟨?_, list.closes keeps separates.2⟩
      rw [name.isEmpty_leading_of_kind keeps rfl (.inr (Form.isWords_of_isIdentifier fits.2.1))]
      exact separates.1
  | call _ receiver _ list =>
      refine ⟨?_, list.closes keeps separates.2.1, fun isNumeral => ?_⟩
      · rw [receiver.element.isEmpty_leading_of_kind keeps rfl
          (.inl (Form.isValue_of_isChain fits.1.1))]
        exact separates.1
      · rw [receiver.element.sameKind.isNumeral] at isNumeral
        rw [keeps.isEmpty receiver.after (by simp [Interior.segment, SpacePlace.IsInner]) rfl]
        exact separates.2.2 isNumeral
  | declaration returnType name list =>
      obtain ⟨⟨present, rfl, isWords, -⟩, isIdentifier, -, -⟩ := fits
      refine ⟨?_, ?_, list.closes keeps separates.2.2⟩
      · cases returnType with
        | some returnType =>
            rintro _ ⟨⟩
            rw [returnType.isEmpty_leading_of_kind keeps rfl (.inr isWords)]
            exact separates.1 _ rfl
      · rw [name.isEmpty_leading_of_kind keeps rfl (.inr (Form.isWords_of_isIdentifier isIdentifier))]
        exact separates.2.1
  | parentheses => trivial
  | collection list =>
      exact ⟨keeps.stays list.before (by simp [Interior.elements, Interior.list, Interior.gap,
        ContainerPlace.before]) (by simp [Interior.elements, Interior.list, Interior.gap]) separates.1,
        list.closes keeps separates.2⟩
  | empty => trivial
  | unknown => trivial

/-- A layout makes gaps of gaps. -/
theorem RelaidForm.gaps
    {old new : Form Tree}
    (related : RelaidForm styles gap child inside old new)
    (gaps : forall space, space ∈ old.gaps -> space.IsGap) :
    forall space, space ∈ new.gaps -> space.IsGap := by
  cases related with
  | compilationUnit statements =>
      simp only [Form.gaps, List.forall_mem_map] at gaps ⊢
      exact statements.gaps keeps (by simp [Interior.edge]) gaps
  | block statements closing =>
      simp only [Form.gaps, List.forall_mem_cons, List.forall_mem_map] at gaps ⊢
      exact ⟨keeps.isGap closing (by simp [Interior.edge]) gaps.1,
        statements.gaps keeps (by simp [Interior.edge]) gaps.2⟩
  | conditional _ consequence =>
      simp only [Form.gaps, List.forall_mem_singleton] at gaps ⊢
      exact keeps.isGap consequence.after (by simp [Interior.edge]) gaps
  | otherwise body =>
      simp only [Form.gaps, List.forall_mem_singleton] at gaps ⊢
      exact keeps.isGap body.after (by simp [Interior.edge]) gaps
  | returns => simp [Form.gaps]
  | assignment _ value =>
      simp only [Form.gaps, List.forall_mem_singleton] at gaps ⊢
      exact keeps.isGap value.before (by simp [Interior.gap]) gaps
  | binary _ _ _ _ _ before =>
      simp only [Form.gaps, List.forall_mem_singleton] at gaps ⊢
      exact keeps.isGap before (by simp [Interior.gap]) gaps
  | identifier => simp [Form.gaps]
  | literal => simp [Form.gaps]
  | fieldAccess _ name =>
      simp only [Form.gaps, List.forall_mem_singleton] at gaps ⊢
      exact keeps.isGap name.before (by simp [Interior.gap]) gaps
  | plainCall _ list => exact list.gaps keeps gaps
  | call _ receiver _ list =>
      have split := List.forall_mem_cons.1 gaps
      exact List.forall_mem_cons.2
        ⟨keeps.isGap receiver.after (by simp [Interior.segment]) split.1, list.gaps keeps split.2⟩
  | declaration _ _ list => exact list.gaps keeps gaps
  | parentheses inner =>
      simp only [Form.gaps, List.forall_mem_singleton] at gaps ⊢
      exact keeps.isGap inner.after (by simp [Interior.edge]) gaps
  | collection list => exact list.gaps keeps gaps
  | empty => simp [Form.gaps]
  | unknown => simp [Form.gaps]

theorem RelaidForm.eof
    {old new : Form Tree}
    (related : RelaidForm styles gap child inside old new)
    (eof : forall space, old.eof? = some space -> space.IsGapTo true) :
    forall space, new.eof? = some space -> space.IsGapTo true := by
  cases related with
  | compilationUnit _ eofRelated =>
      rintro _ ⟨⟩
      exact keeps.eof eofRelated rfl (eof _ rfl)
  | _ => simp [Form.eof?]

/-- A layout leaves a canonical node canonical. -/
theorem RelaidForm.isCanonical
    {old new : Form Tree}
    (related : RelaidForm styles gap (Relaid styles gap) inside old new)
    (canonical : old.IsCanonical) :
    new.IsCanonical where
  fits := related.fits canonical.fits
  separates := related.separates keeps canonical.fits canonical.separates
  gaps := related.gaps keeps canonical.gaps
  eof := related.eof keeps canonical.eof
  leading := by
    intro tree member
    obtain ⟨before, around, isOld, related⟩ := related.exists_child member
    exact related.isGap_leading keeps (canonical.leading before isOld)
  unmarked := by
    intro tree member
    obtain ⟨before, around, -, related⟩ := related.exists_child member
    exact (relaid_iff.1 related).unmarkedNew

/-- A layout that keeps gaps leaves canonical trees canonical. -/
theorem Relaid.isCanonical
    (related : Relaid styles gap around old new)
    (canonical : old.IsCanonical) :
    new.IsCanonical := by
  induction new using Tree.induction generalizing around old with
  | step head form ih =>
      obtain ⟨atRoot, below⟩ := (Tree.isCanonical_iff old).1 canonical
      have forms := (relaid_iff.1 related).form
      refine (Tree.isCanonical_iff _).2 ⟨forms.isCanonical keeps atRoot, fun tree member => ?_⟩
      obtain ⟨before, around, isOld, related⟩ := forms.exists_child member
      exact ih tree member related (below before isOld)

end Keeps

end Format
end Lossless
