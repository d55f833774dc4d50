import Lossless.Proofs.Layout.Relaid

/-!
# One layout after another

Layouts that leave the line breaks where they are can be composed and reversed, since the slots of a tree
depend on its syntax and on its line breaks alone. Two layouts of one tree that come out the same are one layout.
-/

namespace Lossless
namespace Format

open Java

variable {styles : Styles}

/-! ## Slots of related trees -/

section Slots

variable {gap : Slot -> Space -> Space -> Prop}
variable {child : Surroundings -> Tree -> Tree -> Prop}
variable {inside : Interior} {around : Surroundings} {old new : Form Tree}

/-- The slot before a node depends on the kind of the node alone. -/
theorem RelaidForm.slot_eq
    (related : RelaidForm styles gap child inside old new)
    (around : Surroundings) :
    around.slot styles new = around.slot styles old := by
  cases related <;> rfl

theorem RelaidForm.isUnit_eq (related : RelaidForm styles gap child inside old new) : new.isUnit = old.isUnit := by
  cases related <;> rfl

theorem RelaidForm.nestingOf_eq
    (related : RelaidForm styles gap child inside old new) :
    Indents.nestingOf styles.indents new = Indents.nestingOf styles.indents old := by
  cases related <;> rfl

/-- What is inside a node depends on its kind and on the line break before it. -/
theorem RelaidForm.interior_eq
    (related : RelaidForm styles gap child inside old new)
    {leading leading' : Space}
    (lines : leading'.containsNewline = leading.containsNewline) :
    around.interior styles leading' new = around.interior styles leading old := by
  rw [Surroundings.interior, Surroundings.interior, lines, related.slot_eq, related.nestingOf_eq]

theorem Interior.afterReceiver_eq
    {after after' : Space}
    (lines : after'.containsNewline = after.containsNewline) :
    inside.afterReceiver after' = inside.afterReceiver after := by
  rw [Interior.afterReceiver, Interior.afterReceiver, lines]

end Slots

/-- A relation between spaces that break the line both or neither. -/
def KeepsLines (gap : Slot -> Space -> Space -> Prop) : Prop :=
  forall {slot old new}, gap slot old new -> new.containsNewline = old.containsNewline

/-! ## Backwards -/

section Symm

variable {gap back : Slot -> Space -> Space -> Prop}
variable {child childBack : Surroundings -> Tree -> Tree -> Prop}
variable (lines : KeepsLines gap)
variable (gaps : forall {slot old new}, gap slot old new -> back slot new old)
variable (children : forall {around old new}, child around old new -> childBack around new old)

section Parts

include gaps children

theorem RelaidPadded.symm
    {around : Surroundings}
    {slot : Slot}
    {old new : RightPadded Tree}
    (related : RelaidPadded gap child around slot old new) :
    RelaidPadded back childBack around slot new old :=
  ⟨children related.element, gaps related.after, related.unmarkedNew, related.unmarked⟩

theorem RelaidOperand.symm
    {around : Surroundings}
    {slot : Slot}
    {old new : LeftPadded Tree}
    (related : RelaidOperand gap child around slot old new) :
    RelaidOperand back childBack around slot new old :=
  ⟨gaps related.before, children related.element, related.unmarkedNew, related.unmarked⟩

theorem RelaidStatements.symm
    {around : Surroundings}
    {slot : Slot}
    {olds news : List (RightPadded Tree)}
    (related : RelaidStatements gap child around slot olds news) :
    RelaidStatements back childBack around slot news olds := by
  induction related with
  | nil => exact .nil
  | cons first _ ih => exact .cons (first.symm gaps children) ih

theorem RelaidElements.symm
    {layout : ListLayout}
    {inside : Interior}
    {blank : Bool}
    {olds news : List (RightPadded Tree)}
    (related : RelaidElements gap child layout inside blank olds news) :
    RelaidElements back childBack layout inside blank news olds := by
  induction related with
  | last last =>
      cases last with
      | plain padded => exact .last (.plain (padded.symm gaps children))
      | comma element after only isComma onlyNew isCommaNew suffix =>
          exact .last (.comma (children element) (gaps after) onlyNew isCommaNew only isComma (gaps suffix))
  | cons first _ ih => exact .cons (first.symm gaps children) ih

theorem RelaidNone.symm
    {layout : ListLayout}
    {inside : Interior}
    {olds news : List (RightPadded Tree)}
    (related : RelaidNone gap child layout inside olds news) :
    RelaidNone back childBack layout inside news olds := by
  cases related with
  | only isEmpty isEmptyNew padded => exact .only isEmptyNew isEmpty (padded.symm gaps children)

theorem RelaidContainer.symm
    {layout : ListLayout}
    {inside : Interior}
    {old new : Container Tree}
    (related : RelaidContainer styles gap child layout inside old new) :
    RelaidContainer styles back childBack layout inside new old := by
  refine ⟨gaps related.before, related.unmarkedNew, related.unmarked, ?_⟩
  rcases related.padded with none | ⟨some, someNew, elements⟩
  · exact .inl (none.symm gaps children)
  · exact .inr ⟨someNew, some, elements.symm gaps children⟩

omit gaps children in
theorem relaidOption_symm
    {relation relationBack : Tree -> Tree -> Prop}
    (back : forall {old new}, relation old new -> relationBack new old)
    {old new : Option Tree}
    (related : Option.Rel relation old new) :
    Option.Rel relationBack new old := by
  cases related with
  | none => exact .none
  | some related => exact .some (back related)

end Parts

include lines gaps children

theorem RelaidForm.symm
    {inside : Interior}
    {old new : Form Tree}
    (related : RelaidForm styles gap child inside old new) :
    RelaidForm styles back childBack inside new old := by
  cases related with
  | compilationUnit statements eof =>
      exact .compilationUnit (statements.symm gaps children) (gaps eof)
  | block statements closing => exact .block (statements.symm gaps children) (gaps closing)
  | conditional condition consequence alternative =>
      exact .conditional (children condition) (consequence.symm gaps children)
        (relaidOption_symm children alternative)
  | otherwise body => exact .otherwise (body.symm gaps children)
  | returns value => exact .returns (relaidOption_symm children value)
  | assignment target value => exact .assignment (children target) (value.symm gaps children)
  | binary around same unmarked unmarkedNew left before right =>
      rw [same] at around
      exact .binary around same.symm unmarkedNew unmarked (children left) (gaps before) (children right)
  | identifier => exact .identifier
  | literal => exact .literal
  | fieldAccess target name => exact .fieldAccess (children target) (name.symm gaps children)
  | plainCall name list => exact .plainCall (children name) (list.symm gaps children)
  | call behind receiver name list =>
      rw [← Interior.afterReceiver_eq (lines receiver.after)] at behind
      exact .call behind (receiver.symm gaps children) (children name) (list.symm gaps children)
  | declaration returnType name list body =>
      exact .declaration (relaidOption_symm children returnType) (children name)
        (list.symm gaps children) (relaidOption_symm children body)
  | parentheses inner => exact .parentheses (inner.symm gaps children)
  | collection list => exact .collection (list.symm gaps children)
  | empty => exact .empty
  | unknown => exact .unknown

theorem RelaidNode.symm
    {around : Surroundings}
    {old new : Tree}
    (related : RelaidNode styles gap child around old new) :
    RelaidNode styles back childBack around new old := by
  obtain ⟨leading, unmarked, unmarkedNew, form⟩ := related
  refine ⟨?_, unmarkedNew, unmarked, ?_⟩
  · rw [form.slot_eq]
    exact gaps leading
  · rw [form.interior_eq (lines leading)]
    exact form.symm lines gaps children

omit children in
/-- Layouts that keep the line breaks can be reversed. -/
theorem Relaid.symm
    {around : Surroundings}
    {old new : Tree}
    (related : Relaid styles gap around old new) :
    Relaid styles back around new old := by
  refine ⟨fun around new old => Relaid styles gap around old new, fun around new old related => ?_, related⟩
  exact (relaid_iff.1 related).symm lines gaps id

end Symm

/-! ## One after the other -/

section Comp

variable {first second both : Slot -> Space -> Space -> Prop}
variable {childFirst childSecond childBoth : Surroundings -> Tree -> Tree -> Prop}
variable (lines : KeepsLines first)
variable (gaps : forall slot old middle new,
  first slot old middle -> second slot middle new -> both slot old new)
variable (children : forall around old middle new,
  childFirst around old middle -> childSecond around middle new -> childBoth around old new)

section Parts

include gaps children

theorem RelaidPadded.comp
    {around : Surroundings}
    {slot : Slot}
    {old middle new : RightPadded Tree}
    (relatedFirst : RelaidPadded first childFirst around slot old middle)
    (relatedSecond : RelaidPadded second childSecond around slot middle new) :
    RelaidPadded both childBoth around slot old new :=
  ⟨children _ _ _ _ relatedFirst.element relatedSecond.element,
    gaps _ _ _ _ relatedFirst.after relatedSecond.after,
    relatedFirst.unmarked, relatedSecond.unmarkedNew⟩

theorem RelaidOperand.comp
    {around : Surroundings}
    {slot : Slot}
    {old middle new : LeftPadded Tree}
    (relatedFirst : RelaidOperand first childFirst around slot old middle)
    (relatedSecond : RelaidOperand second childSecond around slot middle new) :
    RelaidOperand both childBoth around slot old new :=
  ⟨gaps _ _ _ _ relatedFirst.before relatedSecond.before,
    children _ _ _ _ relatedFirst.element relatedSecond.element,
    relatedFirst.unmarked, relatedSecond.unmarkedNew⟩

theorem RelaidStatements.comp
    {around : Surroundings}
    {slot : Slot}
    {olds middles news : List (RightPadded Tree)}
    (relatedFirst : RelaidStatements first childFirst around slot olds middles)
    (relatedSecond : RelaidStatements second childSecond around slot middles news) :
    RelaidStatements both childBoth around slot olds news := by
  induction relatedFirst generalizing news with
  | nil =>
      cases relatedSecond
      exact .nil
  | cons head _ ih =>
      cases relatedSecond with
      | cons headSecond tailSecond => exact .cons (head.comp gaps children headSecond) (ih tailSecond)

theorem RelaidLast.comp
    {layout : ListLayout}
    {around : Surroundings}
    {old middle new : RightPadded Tree}
    (relatedFirst : RelaidLast first childFirst layout around old middle)
    (relatedSecond : RelaidLast second childSecond layout around middle new) :
    RelaidLast both childBoth layout around old new := by
  cases relatedFirst with
  | plain padded =>
      cases relatedSecond with
      | plain paddedSecond => exact .plain (padded.comp gaps children paddedSecond)
      | comma _ _ only =>
          have none := padded.unmarkedNew
          rw [only] at none
          cases none
  | comma element after only isComma onlyMiddle isCommaMiddle suffix =>
      cases relatedSecond with
      | plain paddedSecond =>
          have none := paddedSecond.unmarked
          rw [onlyMiddle] at none
          cases none
      | comma elementSecond afterSecond onlySecond isCommaSecond onlyNew isCommaNew suffixSecond =>
          rw [onlyMiddle] at onlySecond
          obtain rfl := (List.cons.inj onlySecond).1
          rw [isCommaMiddle] at isCommaSecond
          obtain rfl := Fact.trailingComma.inj isCommaSecond
          exact .comma (children _ _ _ _ element elementSecond) (gaps _ _ _ _ after afterSecond) only isComma onlyNew
            isCommaNew (gaps _ _ _ _ suffix suffixSecond)

theorem RelaidElements.comp
    {layout : ListLayout}
    {inside : Interior}
    {blank : Bool}
    {olds middles news : List (RightPadded Tree)}
    (relatedFirst : RelaidElements first childFirst layout inside blank olds middles)
    (relatedSecond : RelaidElements second childSecond layout inside blank middles news) :
    RelaidElements both childBoth layout inside blank olds news := by
  induction relatedFirst generalizing news with
  | last last =>
      cases relatedSecond with
      | last lastSecond => exact .last (last.comp gaps children lastSecond)
      | cons _ tail => cases tail
  | cons head tail ih =>
      cases relatedSecond with
      | last => cases tail
      | cons headSecond tailSecond => exact .cons (head.comp gaps children headSecond) (ih tailSecond)

theorem RelaidNone.comp
    {layout : ListLayout}
    {inside : Interior}
    {olds middles news : List (RightPadded Tree)}
    (relatedFirst : RelaidNone first childFirst layout inside olds middles)
    (relatedSecond : RelaidNone second childSecond layout inside middles news) :
    RelaidNone both childBoth layout inside olds news := by
  cases relatedFirst with
  | only isEmpty _ padded =>
      cases relatedSecond with
      | only _ isEmptyNew paddedSecond =>
          exact .only isEmpty isEmptyNew (padded.comp gaps children paddedSecond)

omit gaps children in
/-- The one empty node of a list without elements is what makes it one. -/
theorem RelaidNone.isNone
    {gap : Slot -> Space -> Space -> Prop}
    {child : Surroundings -> Tree -> Tree -> Prop}
    {layout : ListLayout}
    {inside : Interior}
    {olds news : List (RightPadded Tree)}
    (related : RelaidNone gap child layout inside olds news) :
    IsNone olds ∧ IsNone news := by
  cases related with
  | only isEmpty isEmptyNew padded =>
      exact ⟨⟨by rw [isEmpty]; rfl, padded.unmarked⟩, ⟨by rw [isEmptyNew]; rfl, padded.unmarkedNew⟩⟩

theorem RelaidContainer.comp
    {layout : ListLayout}
    {inside : Interior}
    {old middle new : Container Tree}
    (relatedFirst : RelaidContainer styles first childFirst layout inside old middle)
    (relatedSecond : RelaidContainer styles second childSecond layout inside middle new) :
    RelaidContainer styles both childBoth layout inside old new := by
  refine ⟨gaps _ _ _ _ relatedFirst.before relatedSecond.before, relatedFirst.unmarked,
    relatedSecond.unmarkedNew, ?_⟩
  rcases relatedFirst.padded with none | ⟨some, someMiddle, elements⟩
  · rcases relatedSecond.padded with noneSecond | ⟨someSecond, -, -⟩
    · exact .inl (none.comp gaps children noneSecond)
    · exact absurd none.isNone.2 someSecond
  · rcases relatedSecond.padded with noneSecond | ⟨-, someNew, elementsSecond⟩
    · exact absurd noneSecond.isNone.1 someMiddle
    · exact .inr ⟨some, someNew, elements.comp gaps children elementsSecond⟩

omit gaps children in
theorem relaidOption_comp
    {relationFirst relationSecond relationBoth : Tree -> Tree -> Prop}
    (both : forall old middle new,
      relationFirst old middle -> relationSecond middle new -> relationBoth old new)
    {old middle new : Option Tree}
    (relatedFirst : Option.Rel relationFirst old middle)
    (relatedSecond : Option.Rel relationSecond middle new) :
    Option.Rel relationBoth old new := by
  cases relatedFirst with
  | none =>
      cases relatedSecond
      exact .none
  | some related =>
      cases relatedSecond with
      | some relatedSecond => exact .some (both _ _ _ related relatedSecond)

end Parts

include lines gaps children

theorem RelaidForm.comp
    {inside : Interior}
    {old middle new : Form Tree}
    (relatedFirst : RelaidForm styles first childFirst inside old middle)
    (relatedSecond : RelaidForm styles second childSecond inside middle new) :
    RelaidForm styles both childBoth inside old new := by
  cases relatedFirst with
  | compilationUnit statements eof =>
      cases relatedSecond with
      | compilationUnit statementsSecond eofSecond =>
          exact .compilationUnit (statements.comp gaps children statementsSecond) (gaps _ _ _ _ eof eofSecond)
  | block statements closing =>
      cases relatedSecond with
      | block statementsSecond closingSecond =>
          exact .block (statements.comp gaps children statementsSecond) (gaps _ _ _ _ closing closingSecond)
  | conditional condition consequence alternative =>
      cases relatedSecond with
      | conditional conditionSecond consequenceSecond alternativeSecond =>
          exact .conditional (children _ _ _ _ condition conditionSecond)
            (consequence.comp gaps children consequenceSecond)
            (relaidOption_comp (children _) alternative alternativeSecond)
  | otherwise body =>
      cases relatedSecond with
      | otherwise bodySecond => exact .otherwise (body.comp gaps children bodySecond)
  | returns value =>
      cases relatedSecond with
      | returns valueSecond => exact .returns (relaidOption_comp (children _) value valueSecond)
  | assignment target value =>
      cases relatedSecond with
      | assignment targetSecond valueSecond =>
          exact .assignment (children _ _ _ _ target targetSecond) (value.comp gaps children valueSecond)
  | binary around same unmarked _ left before right =>
      cases relatedSecond with
      | binary aroundSecond sameSecond _ unmarkedNew leftSecond beforeSecond rightSecond =>
          rw [← same, ← around] at aroundSecond
          subst aroundSecond
          exact .binary around (same.trans sameSecond) unmarked unmarkedNew
            (children _ _ _ _ left leftSecond) (gaps _ _ _ _ before beforeSecond) (children _ _ _ _ right rightSecond)
  | identifier =>
      cases relatedSecond
      exact .identifier
  | literal =>
      cases relatedSecond
      exact .literal
  | fieldAccess target name =>
      cases relatedSecond with
      | fieldAccess targetSecond nameSecond =>
          exact .fieldAccess (children _ _ _ _ target targetSecond) (name.comp gaps children nameSecond)
  | plainCall name list =>
      cases relatedSecond with
      | plainCall nameSecond listSecond =>
          exact .plainCall (children _ _ _ _ name nameSecond) (list.comp gaps children listSecond)
  | call behind receiver name list =>
      cases relatedSecond with
      | call behindSecond receiverSecond nameSecond listSecond =>
          rw [Interior.afterReceiver_eq (lines receiver.after), ← behind] at behindSecond
          subst behindSecond
          exact .call behind (receiver.comp gaps children receiverSecond) (children _ _ _ _ name nameSecond)
            (list.comp gaps children listSecond)
  | declaration returnType name list body =>
      cases relatedSecond with
      | declaration returnTypeSecond nameSecond listSecond bodySecond =>
          exact .declaration (relaidOption_comp (children _) returnType returnTypeSecond)
            (children _ _ _ _ name nameSecond) (list.comp gaps children listSecond)
            (relaidOption_comp (children _) body bodySecond)
  | parentheses inner =>
      cases relatedSecond with
      | parentheses innerSecond => exact .parentheses (inner.comp gaps children innerSecond)
  | collection list =>
      cases relatedSecond with
      | collection listSecond => exact .collection (list.comp gaps children listSecond)
  | empty =>
      cases relatedSecond
      exact .empty
  | unknown =>
      cases relatedSecond
      exact .unknown

theorem RelaidNode.comp
    {around : Surroundings}
    {old middle new : Tree}
    (relatedFirst : RelaidNode styles first childFirst around old middle)
    (relatedSecond : RelaidNode styles second childSecond around middle new) :
    RelaidNode styles both childBoth around old new := by
  obtain ⟨leading, unmarked, -, form⟩ := relatedFirst
  obtain ⟨leadingSecond, -, unmarkedNew, formSecond⟩ := relatedSecond
  rw [form.slot_eq] at leadingSecond
  rw [form.interior_eq (lines leading)] at formSecond
  exact ⟨gaps _ _ _ _ leading leadingSecond, unmarked, unmarkedNew, form.comp lines gaps children formSecond⟩

omit children in
/-- Layouts, the first of which keeps the line breaks, can be composed. -/
theorem Relaid.comp
    {around : Surroundings}
    {old middle new : Tree}
    (relatedFirst : Relaid styles first around old middle)
    (relatedSecond : Relaid styles second around middle new) :
    Relaid styles both around old new := by
  refine ⟨fun around old new => ∃ middle, Relaid styles first around old middle ∧
    Relaid styles second around middle new, ?_, middle, relatedFirst, relatedSecond⟩
  rintro around old new ⟨middle, relatedFirst, relatedSecond⟩
  exact (relaid_iff.1 relatedFirst).comp lines gaps
    (fun _ _ _ _ below belowSecond => ⟨_, below, belowSecond⟩) (relaid_iff.1 relatedSecond)

end Comp

/-! ## Both at once -/

section Both

variable {first second both : Slot -> Space -> Space -> Prop}
variable {childFirst childSecond childBoth : Surroundings -> Tree -> Tree -> Prop}
variable (gaps : forall {slot old new}, first slot old new -> second slot old new -> both slot old new)
variable (children : forall {around old new}, childFirst around old new -> childSecond around old new ->
  childBoth around old new)

section Parts

include gaps children

theorem RelaidPadded.inter
    {around : Surroundings}
    {slot : Slot}
    {old new : RightPadded Tree}
    (relatedFirst : RelaidPadded first childFirst around slot old new)
    (relatedSecond : RelaidPadded second childSecond around slot old new) :
    RelaidPadded both childBoth around slot old new :=
  ⟨children relatedFirst.element relatedSecond.element, gaps relatedFirst.after relatedSecond.after,
    relatedFirst.unmarked, relatedFirst.unmarkedNew⟩

theorem RelaidOperand.inter
    {around : Surroundings}
    {slot : Slot}
    {old new : LeftPadded Tree}
    (relatedFirst : RelaidOperand first childFirst around slot old new)
    (relatedSecond : RelaidOperand second childSecond around slot old new) :
    RelaidOperand both childBoth around slot old new :=
  ⟨gaps relatedFirst.before relatedSecond.before, children relatedFirst.element relatedSecond.element,
    relatedFirst.unmarked, relatedFirst.unmarkedNew⟩

theorem RelaidStatements.inter
    {around : Surroundings}
    {slot : Slot}
    {olds news : List (RightPadded Tree)}
    (relatedFirst : RelaidStatements first childFirst around slot olds news)
    (relatedSecond : RelaidStatements second childSecond around slot olds news) :
    RelaidStatements both childBoth around slot olds news := by
  induction relatedFirst with
  | nil => exact .nil
  | cons head _ ih =>
      cases relatedSecond with
      | cons headSecond tailSecond => exact .cons (head.inter gaps children headSecond) (ih tailSecond)

theorem RelaidLast.inter
    {layout : ListLayout}
    {around : Surroundings}
    {old new : RightPadded Tree}
    (relatedFirst : RelaidLast first childFirst layout around old new)
    (relatedSecond : RelaidLast second childSecond layout around old new) :
    RelaidLast both childBoth layout around old new := by
  cases relatedFirst with
  | plain padded =>
      cases relatedSecond with
      | plain paddedSecond => exact .plain (padded.inter gaps children paddedSecond)
      | comma _ _ only =>
          have none := padded.unmarked
          rw [only] at none
          cases none
  | comma element after only isComma onlyNew isCommaNew suffix =>
      cases relatedSecond with
      | plain paddedSecond =>
          have none := paddedSecond.unmarked
          rw [only] at none
          cases none
      | comma elementSecond afterSecond onlySecond isCommaSecond onlyNewSecond isCommaNewSecond suffixSecond =>
          rw [only] at onlySecond
          obtain rfl := (List.cons.inj onlySecond).1
          rw [onlyNew] at onlyNewSecond
          obtain rfl := (List.cons.inj onlyNewSecond).1
          rw [isComma] at isCommaSecond
          obtain rfl := Fact.trailingComma.inj isCommaSecond
          rw [isCommaNew] at isCommaNewSecond
          obtain rfl := Fact.trailingComma.inj isCommaNewSecond
          exact .comma (children element elementSecond) (gaps after afterSecond) only isComma onlyNew isCommaNew
            (gaps suffix suffixSecond)

theorem RelaidElements.inter
    {layout : ListLayout}
    {inside : Interior}
    {blank : Bool}
    {olds news : List (RightPadded Tree)}
    (relatedFirst : RelaidElements first childFirst layout inside blank olds news)
    (relatedSecond : RelaidElements second childSecond layout inside blank olds news) :
    RelaidElements both childBoth layout inside blank olds news := by
  induction relatedFirst with
  | last last =>
      cases relatedSecond with
      | last lastSecond => exact .last (last.inter gaps children lastSecond)
      | cons _ tail => cases tail
  | cons head tail ih =>
      cases relatedSecond with
      | last => cases tail
      | cons headSecond tailSecond => exact .cons (head.inter gaps children headSecond) (ih tailSecond)

theorem RelaidContainer.inter
    {layout : ListLayout}
    {inside : Interior}
    {old new : Container Tree}
    (relatedFirst : RelaidContainer styles first childFirst layout inside old new)
    (relatedSecond : RelaidContainer styles second childSecond layout inside old new) :
    RelaidContainer styles both childBoth layout inside old new := by
  refine ⟨gaps relatedFirst.before relatedSecond.before, relatedFirst.unmarked, relatedFirst.unmarkedNew, ?_⟩
  rcases relatedFirst.padded with none | ⟨some, someNew, elements⟩
  · rcases relatedSecond.padded with noneSecond | ⟨someSecond, -, -⟩
    · generalize old.padded = olds at none noneSecond
      generalize new.padded = news at none noneSecond
      cases none with
      | only isEmpty isEmptyNew padded =>
          cases noneSecond with
          | only _ _ paddedSecond => exact .inl (.only isEmpty isEmptyNew (padded.inter gaps children paddedSecond))
    · exact absurd none.isNone.1 someSecond
  · rcases relatedSecond.padded with noneSecond | ⟨-, -, elementsSecond⟩
    · exact absurd noneSecond.isNone.1 some
    · exact .inr ⟨some, someNew, elements.inter gaps children elementsSecond⟩

omit gaps children in
theorem relaidOption_inter
    {relationFirst relationSecond relationBoth : Tree -> Tree -> Prop}
    (both : forall {old new}, relationFirst old new -> relationSecond old new -> relationBoth old new)
    {old new : Option Tree}
    (relatedFirst : Option.Rel relationFirst old new)
    (relatedSecond : Option.Rel relationSecond old new) :
    Option.Rel relationBoth old new := by
  cases relatedFirst with
  | none => exact .none
  | some related =>
      cases relatedSecond with
      | some relatedSecond => exact .some (both related relatedSecond)

theorem RelaidForm.inter
    {inside : Interior}
    {old new : Form Tree}
    (relatedFirst : RelaidForm styles first childFirst inside old new)
    (relatedSecond : RelaidForm styles second childSecond inside old new) :
    RelaidForm styles both childBoth inside old new := by
  cases relatedFirst with
  | compilationUnit statements eof =>
      cases relatedSecond with
      | compilationUnit statementsSecond eofSecond =>
          exact .compilationUnit (statements.inter gaps children statementsSecond) (gaps eof eofSecond)
  | block statements closing =>
      cases relatedSecond with
      | block statementsSecond closingSecond =>
          exact .block (statements.inter gaps children statementsSecond) (gaps closing closingSecond)
  | conditional condition consequence alternative =>
      cases relatedSecond with
      | conditional conditionSecond consequenceSecond alternativeSecond =>
          exact .conditional (children condition conditionSecond) (consequence.inter gaps children consequenceSecond)
            (relaidOption_inter children alternative alternativeSecond)
  | otherwise body =>
      cases relatedSecond with
      | otherwise bodySecond => exact .otherwise (body.inter gaps children bodySecond)
  | returns value =>
      cases relatedSecond with
      | returns valueSecond => exact .returns (relaidOption_inter children value valueSecond)
  | assignment target value =>
      cases relatedSecond with
      | assignment targetSecond valueSecond =>
          exact .assignment (children target targetSecond) (value.inter gaps children valueSecond)
  | binary around same unmarked unmarkedNew left before right =>
      cases relatedSecond with
      | binary aroundSecond _ _ _ leftSecond beforeSecond rightSecond =>
          rw [← around] at aroundSecond
          subst aroundSecond
          exact .binary around same unmarked unmarkedNew (children left leftSecond) (gaps before beforeSecond)
            (children right rightSecond)
  | identifier => exact .identifier
  | literal => exact .literal
  | fieldAccess target name =>
      cases relatedSecond with
      | fieldAccess targetSecond nameSecond =>
          exact .fieldAccess (children target targetSecond) (name.inter gaps children nameSecond)
  | plainCall name list =>
      cases relatedSecond with
      | plainCall nameSecond listSecond =>
          exact .plainCall (children name nameSecond) (list.inter gaps children listSecond)
  | call behind receiver name list =>
      cases relatedSecond with
      | call behindSecond receiverSecond nameSecond listSecond =>
          rw [← behind] at behindSecond
          subst behindSecond
          exact .call behind (receiver.inter gaps children receiverSecond) (children name nameSecond)
            (list.inter gaps children listSecond)
  | declaration returnType name list body =>
      cases relatedSecond with
      | declaration returnTypeSecond nameSecond listSecond bodySecond =>
          exact .declaration (relaidOption_inter children returnType returnTypeSecond) (children name nameSecond)
            (list.inter gaps children listSecond) (relaidOption_inter children body bodySecond)
  | parentheses inner =>
      cases relatedSecond with
      | parentheses innerSecond => exact .parentheses (inner.inter gaps children innerSecond)
  | collection list =>
      cases relatedSecond with
      | collection listSecond => exact .collection (list.inter gaps children listSecond)
  | empty => exact .empty
  | unknown => exact .unknown

end Parts

include gaps

/-- Trees whose spaces are related in two ways are related by both. -/
theorem Relaid.inter
    {around : Surroundings}
    {old new : Tree}
    (relatedFirst : Relaid styles first around old new)
    (relatedSecond : Relaid styles second around old new) :
    Relaid styles both around old new := by
  refine ⟨fun around old new => Relaid styles first around old new ∧ Relaid styles second around old new, ?_,
    relatedFirst, relatedSecond⟩
  rintro around old new ⟨relatedFirst, relatedSecond⟩
  obtain ⟨leading, unmarked, unmarkedNew, form⟩ := relaid_iff.1 relatedFirst
  obtain ⟨leadingSecond, -, -, formSecond⟩ := relaid_iff.1 relatedSecond
  exact ⟨gaps leading leadingSecond, unmarked, unmarkedNew, form.inter gaps And.intro formSecond⟩

end Both

end Format
end Lossless
