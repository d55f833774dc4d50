import Lossless.Proofs.Java.RoundTrip
import Lossless.Proofs.Java.Whole
import Lossless.Proofs.Text.Runs

/-!
# What stands between two tokens

Of the spaces that a canonical tree is printed with between one token and the next, no more than one is not empty. A
node that starts with a child has nothing before the child, and behind a part that ends by itself, or that is empty,
nothing stands.
-/

namespace Lossless
namespace Java

open Pieces

/-! ## Tokens -/

/-- A token that ends with something other than a blank and, unless it is the text of an unknown node, has no line feed. -/
def isFirm
    (isUnknown : Bool)
    (token : Text) : Bool :=
  token.getLast?.any (fun char => !Text.isBlank char) && (isUnknown || !token.contains '\n')

section Tokens

variable {isUnknown : Bool} {token : Text}

theorem isFirm_concat
    {front : Text}
    {last : Char}
    (notBlank : Text.isBlank last = false)
    (noFeed : isUnknown = true ∨ '\n' ∉ front) :
    isFirm isUnknown (front ++ [last]) = true := by
  have notFeed : '\n' ≠ last := by
    rintro rfl
    cases notBlank
  unfold isFirm
  rw [List.getLast?_concat, Option.any_some, notBlank, Bool.not_false, Bool.true_and, Bool.or_eq_true]
  refine noFeed.imp id fun absent => ?_
  simp [absent, notFeed]

theorem exists_of_isFirm (isFirm : isFirm isUnknown token = true) :
    exists front last, token = front ++ [last] ∧ Text.isBlank last = false ∧ (isUnknown = true ∨ '\n' ∉ front) := by
  unfold Java.isFirm at isFirm
  rw [Bool.and_eq_true, Bool.or_eq_true] at isFirm
  rcases List.eq_nil_or_concat token with rfl | ⟨front, last, rfl⟩
  · cases isFirm.1
  · rw [List.concat_eq_append] at isFirm ⊢
    rw [List.getLast?_concat, Option.any_some, Bool.not_eq_true'] at isFirm
    exact ⟨front, last, rfl, isFirm.1, isFirm.2.imp id fun absent member => by simp [member] at absent⟩

/-- A token of characters none of which is a blank. -/
theorem isFirm_of_all
    {test : Char -> Bool}
    (noBlank : forall char, Text.isBlank char = true -> test char = false)
    (nonempty : token ≠ [])
    (all : token.all test = true) :
    isFirm isUnknown token = true := by
  have inside (char : Char) (member : char ∈ token) : Text.isBlank char = false := by
    refine Bool.eq_false_iff.2 fun blank => ?_
    have outside := noBlank char blank
    rw [List.all_eq_true.1 all char member] at outside
    cases outside
  obtain ⟨front, last, rfl⟩ := (List.eq_nil_or_concat token).resolve_left nonempty
  rw [List.concat_eq_append] at inside ⊢
  refine isFirm_concat (inside last (by simp)) (.inr fun member => ?_)
  cases inside '\n' (List.mem_append_left _ member)

theorem isFirm_of_isName
    (named : isName token = true) :
    isFirm isUnknown token = true :=
  isFirm_of_all (fun _ => Text.isIdentifierPart_of_isBlank) (ne_nil_of_isName named) (isName_iff.1 named).2

theorem isFirm_of_literal
    (isLiteral : (isLiteralWord token || isNumber token || isQuoted token) = true) :
    isFirm isUnknown token = true := by
  rw [Bool.or_eq_true, Bool.or_eq_true] at isLiteral
  rcases isLiteral with (word | number) | quoted
  · simp only [isLiteralWord, Bool.or_eq_true, decide_eq_true_eq] at word
    rcases word with (rfl | rfl) | rfl <;> cases isUnknown <;> decide
  · cases token with
    | nil => cases number
    | cons first rest =>
        simp only [isNumber, Bool.and_eq_true] at number
        let test (char : Char) : Bool := isNumberPart char || char = '-'
        have noBlank (char : Char) (blank : Text.isBlank char = true) : test char = false :=
          Text.eq_false_of_isBlank (by decide +kernel) blank
        refine isFirm_of_all noBlank (List.cons_ne_nil _ _) (List.all_cons.trans (Bool.and_eq_true_iff.2 ⟨?_, ?_⟩))
        · have starts := number.1
          unfold Parser.isNumberStart at starts
          split at starts
          · next same => rw [(List.cons.inj same).1]; rfl
          · next same =>
              rw [(List.cons.inj same).1]
              simp [test, isNumberPart, Char.isAlphanum, starts]
          · cases starts
        · refine List.all_eq_true.2 fun char member => ?_
          simp [test, List.all_eq_true.1 number.2 char member]
  · cases token with
    | nil => cases quoted
    | cons first rest =>
        simp only [isQuoted, Bool.and_eq_true, Bool.or_eq_true, decide_eq_true_eq] at quoted
        obtain ⟨front, rfl, noFeed⟩ := exists_of_splitQuoted? quoted.2
        change isFirm isUnknown ((first :: front) ++ [first]) = true
        refine isFirm_concat ?_ (.inr (List.not_mem_cons_of_ne_of_not_mem ?_ noFeed))
        · rcases quoted.1 with rfl | rfl <;> decide
        · rcases quoted.1 with rfl | rfl <;> decide

/-- Words that are kept end with a name. -/
theorem isFirm_of_areWords (areWords : AreWords token) : isFirm true token = true := by
  obtain ⟨first, more, named, -, spaced, rfl⟩ := areWords
  have firm {token : Text} (named : isName token = true) (front : Text) : isFirm true (front ++ token) = true := by
    have ends : isFirm true token = true := isFirm_of_isName named
    obtain ⟨inner, last, rfl, notBlank, -⟩ := exists_of_isFirm ends
    rw [← List.append_assoc]
    exact isFirm_concat notBlank (.inl rfl)
  have whole := firm named []
  clear named
  induction more generalizing first with
  | nil => simpa [writtenWords] using whole
  | cons pair rest ih =>
      obtain ⟨here, later⟩ := List.forall_mem_cons.1 spaced
      rw [writtenWords, List.flatMap_cons, ← List.append_assoc]
      refine ih _ later ?_
      rw [List.nil_append, ← List.append_assoc]
      exact firm here.1 _

theorem isFirm_symbol (operator : Operator) : isFirm false (operator.symbol .java) = true := by
  cases operator <;> decide

end Tokens

/-! ## Pieces -/

/--
Read pieces one after the other. `isUnknown` says that the next token is the text of an unknown node, and `isSpaced` that
a space that is not empty stands behind the last token. Nothing comes of two such spaces behind one token, and of a token
that is not firm.
-/
def spacedBehind? : Bool -> Bool -> Pieces -> Option Bool
  | _, isSpaced, [] => some isSpaced
  | _, isSpaced, .space place content :: rest =>
      if content.isEmpty then spacedBehind? (place = .unknownPrefix) isSpaced rest
      else if isSpaced then none
      else spacedBehind? (place = .unknownPrefix) true rest
  | isUnknown, _, .token text :: rest => if isFirm isUnknown text then spacedBehind? false false rest else none
  | isUnknown, isSpaced, .start _ _ :: rest => spacedBehind? isUnknown isSpaced rest
  | _, isSpaced, .finish _ :: rest => spacedBehind? false isSpaced rest

section Pieces

variable {isUnknown isSpaced : Bool} {rest : Pieces}

theorem spacedBehind?_leading
    {place : SpacePlace}
    {content : Space}
    (fits : isSpaced = true -> content.isEmpty = true) :
    spacedBehind? isUnknown isSpaced (.space place content :: rest) =
      spacedBehind? (place = .unknownPrefix) (isSpaced || !content.isEmpty) rest := by
  rw [spacedBehind?]
  cases isEmpty : content.isEmpty with
  | true => rw [if_pos rfl, Bool.not_true, Bool.or_false]
  | false =>
      cases isSpaced with
      | true => rw [fits rfl] at isEmpty; cases isEmpty
      | false => rfl

theorem spacedBehind?_space
    {place : SpacePlace}
    {content : Space}
    (known : place ≠ .unknownPrefix)
    (fits : isSpaced = true -> content.isEmpty = true) :
    spacedBehind? isUnknown isSpaced (.space place content :: rest) =
      spacedBehind? false (isSpaced || !content.isEmpty) rest := by
  rw [spacedBehind?_leading fits, decide_eq_false known]

theorem spacedBehind?_token
    {token : Text}
    (firm : isFirm false token = true) :
    spacedBehind? false isSpaced (.token token :: rest) = spacedBehind? false false rest := by
  rw [spacedBehind?, if_pos firm]

/-- Where no space is open, any space can stand. -/
theorem isEmpty_of_unspaced
    {content : Space}
    (spaced : false = true) :
    content.isEmpty = true :=
  absurd spaced Bool.false_ne_true

theorem after_ne_unknownPrefix (place : ElementPlace) : place.after ≠ .unknownPrefix := by
  cases place <;> decide

theorem before_ne_unknownPrefix (place : ContainerPlace) : place.before ≠ .unknownPrefix := by
  cases place <;> decide

/-- What is read behind a tree that can stand there: only an empty node leaves the space before it open. -/
def IsReadOver (tree : Tree) : Prop :=
  forall isUnknown isSpaced rest, (isSpaced = true -> tree.leading.isEmpty = true) ->
    spacedBehind? isUnknown isSpaced (tree.pieces .java ++ rest) =
      spacedBehind? false (tree.form.isEmpty && (isSpaced || !tree.leading.isEmpty)) rest

theorem IsReadOver.token
    {tree : Tree}
    (read : IsReadOver tree)
    (notEmpty : tree.form.isEmpty = false)
    (fits : isSpaced = true -> tree.leading.isEmpty = true) :
    spacedBehind? isUnknown isSpaced (tree.pieces .java ++ rest) = spacedBehind? false false rest := by
  rw [read _ _ _ fits, notEmpty, Bool.false_and]

theorem IsReadOver.statement
    {place : ElementPlace}
    {padded : RightPadded Tree}
    (read : IsReadOver padded.element)
    (closes : Closes padded)
    (unmarked : padded.markers.toList = []) :
    spacedBehind? isUnknown false (Pieces.statement .java place (padded.map (Tree.printed .java)) ++ rest) =
      spacedBehind? false false rest := by
  have known := after_ne_unknownPrefix place
  have sign : Dialect.java.needsSemicolon padded = !padded.element.form.isSelfTerminated := by
    simp [Dialect.needsSemicolon, Markers.findFirst?, unmarked]
  have noPrinted : (padded.map (Tree.printed .java)).map Prod.fst = padded := rfl
  unfold Pieces.statement
  rw [noPrinted, sign, List.append_assoc, List.cons_append]
  change spacedBehind? isUnknown false (padded.element.pieces .java ++ .space place.after padded.after :: _) = _
  rw [read _ _ _ isEmpty_of_unspaced, Bool.false_or,
    spacedBehind?_space known fun spaced => closes (.inr (Bool.and_eq_true_iff.1 spaced).1)]
  cases ends : padded.element.form.isSelfTerminated with
  | true =>
      have notEmpty : padded.element.form.isEmpty = false := by
        cases atForm : padded.element.form <;> simp_all [Form.isSelfTerminated, Form.isEmpty]
      rw [notEmpty, closes (.inl ends)]
      rfl
  | false => exact spacedBehind?_token rfl

theorem readOver_statements
    {place : ElementPlace}
    {list : List (RightPadded Tree)}
    (read : forall child, child ∈ RightPadded.elements list -> IsReadOver child)
    (closes : forall padded, padded ∈ list -> Closes padded)
    (unmarked : forall padded, padded ∈ list -> padded.markers.toList = []) :
    spacedBehind? false false ((list.map (·.map (Tree.printed .java))).flatMap (Pieces.statement .java place) ++ rest) =
      spacedBehind? false false rest := by
  induction list with
  | nil => rfl
  | cons first others ih =>
      obtain ⟨here, later⟩ := List.forall_mem_cons.1 read
      obtain ⟨closesHere, closesLater⟩ := List.forall_mem_cons.1 closes
      obtain ⟨unmarkedHere, unmarkedLater⟩ := List.forall_mem_cons.1 unmarked
      rw [List.map_cons, List.flatMap_cons, List.append_assoc, here.statement closesHere unmarkedHere,
        ih later closesLater unmarkedLater]

theorem readOver_option
    {child : Option Tree}
    (read : forall tree, tree ∈ child.toList -> IsReadOver tree ∧ tree.form.isEmpty = false) :
    spacedBehind? false false (Pieces.option (child.map (Tree.printed .java)) ++ rest) =
      spacedBehind? false false rest := by
  cases child with
  | none => rfl
  | some tree =>
      obtain ⟨read, notEmpty⟩ := read tree (List.mem_singleton_self _)
      exact read.token notEmpty isEmpty_of_unspaced

/-- The elements of a list up to its closing delimiter. -/
theorem readOver_listElements
    {place : ElementPlace}
    {test : Form Tree -> Bool}
    {list : List (RightPadded Tree)}
    {token : Text}
    (firm : isFirm false token = true)
    (notEmpty : forall form, test form = true -> form.isEmpty = false)
    (read : forall child, child ∈ RightPadded.elements list -> IsReadOver child)
    (fits : FitElements test list) :
    spacedBehind? false false (Pieces.listElements place (list.map (·.map (Tree.printed .java))) ++ .token token :: rest) =
      spacedBehind? false false rest := by
  have known := after_ne_unknownPrefix place
  have comma : isFirm false ",".toList = true := by decide
  induction list with
  | nil => exact fits.elim
  | cons first others ih =>
      obtain ⟨here, later⟩ := List.forall_mem_cons.1 read
      cases others with
      | nil =>
          change spacedBehind? false false (first.element.pieces .java ++ .space place.after first.after ::
            Pieces.trailingComma first.markers ++ _) = _
          rw [List.append_assoc, List.cons_append, here.token (notEmpty _ fits.1) isEmpty_of_unspaced,
            spacedBehind?_space known isEmpty_of_unspaced]
          unfold Pieces.trailingComma
          split
          · rw [List.cons_append, symbol, spacedBehind?_token comma, List.cons_append,
              spacedBehind?_space (by decide) isEmpty_of_unspaced, List.nil_append, spacedBehind?_token firm]
          · exact spacedBehind?_token firm
      | cons second more =>
          change spacedBehind? false false (first.element.pieces .java ++ .space place.after first.after ::
            symbol "," :: Pieces.listElements place _ ++ _) = _
          rw [List.append_assoc, List.cons_append, List.cons_append, here.token (notEmpty _ fits.1) isEmpty_of_unspaced,
            spacedBehind?_space known isEmpty_of_unspaced, symbol, spacedBehind?_token comma]
          exact ih later fits.2.2

theorem readOver_container
    {place : ContainerPlace}
    {delimiters : Text × Text}
    {test : Form Tree -> Bool}
    {list : Container Tree}
    (firm : isFirm false delimiters.1 = true ∧ isFirm false delimiters.2 = true)
    (notEmpty : forall form, test form = true -> form.isEmpty = false)
    (read : forall child, child ∈ list.elements -> IsReadOver child)
    (closes : ClosesList list)
    (fits : FitsContainer test list)
    (before : isSpaced = true -> list.before.isEmpty = true) :
    spacedBehind? false isSpaced (Pieces.container place delimiters (list.map (Tree.printed .java)) ++ rest) =
      spacedBehind? false false rest := by
  have known := before_ne_unknownPrefix place
  have knownAfter := after_ne_unknownPrefix place.element
  obtain ⟨before', padded, markers⟩ := list
  change spacedBehind? false isSpaced (.space place.before before' :: .token delimiters.1 ::
    (Pieces.listElements place.element (padded.map (·.map (Tree.printed .java))) ++ [.token delimiters.2]) ++ rest) = _
  rw [List.cons_append, List.cons_append, spacedBehind?_space known before, spacedBehind?_token firm.1, List.append_assoc,
    List.singleton_append]
  rcases fits.2 with none | elements
  · match padded, none, closes none, read with
    | [only], none, closes, read =>
        have nothing : only.after.isEmpty = true := closes only (List.mem_singleton_self _)
        have noComma : Pieces.trailingComma only.markers = [] := by
          simp [Pieces.trailingComma, Markers.findFirst?, none.2]
        change spacedBehind? false false (only.element.pieces .java ++ .space _ only.after ::
          Pieces.trailingComma only.markers ++ _) = _
        rw [noComma, List.append_assoc, List.singleton_append,
          read only.element (List.mem_singleton_self _) _ _ _ isEmpty_of_unspaced,
          spacedBehind?_space knownAfter fun _ => nothing, spacedBehind?_token firm.2]
  · exact readOver_listElements firm.2 notEmpty read elements

/-- The pieces of a form, with a space open before them or not, are read over up to the end of their node. -/
def Form.IsReadOver
    (isSpaced : Bool)
    (form : Form Tree) : Prop :=
  forall id rest,
    spacedBehind? false isSpaced (Pieces.form .java (form.map (Tree.printed .java)) ++ .finish id :: rest) =
      spacedBehind? false (form.isEmpty && isSpaced) rest

end Pieces

/-! ### Statements -/

section Statements

variable {isSpaced : Bool}

theorem readOver_block
    {statements : List (RightPadded Tree)}
    {closing : Space}
    (canonical : (Form.block statements closing).IsCanonical)
    (read : forall child, child ∈ RightPadded.elements statements -> IsReadOver child) :
    (Form.block statements closing).IsReadOver isSpaced := by
  intro id rest
  have unmarked (padded : RightPadded Tree) (member : padded ∈ statements) : padded.markers.toList = [] :=
    (canonical.fits.1 padded member).2
  change spacedBehind? false isSpaced (.token _ ::
    ((statements.map (·.map (Tree.printed .java))).flatMap (Pieces.statement .java .blockStatement) ++
      [.space _ closing] ++ [.token _] ++ _)) = _
  rw [spacedBehind?_token (by decide), List.append_assoc, List.append_assoc,
    readOver_statements read canonical.separates unmarked, List.singleton_append, List.singleton_append,
    spacedBehind?_space (by decide) isEmpty_of_unspaced, spacedBehind?_token (by decide)]
  rfl

theorem readOver_conditional
    {condition : Tree}
    {consequence : RightPadded Tree}
    {alternative : Option Tree}
    (canonical : (Form.conditional condition consequence alternative).IsCanonical)
    (read : forall child, child ∈ condition :: consequence.element :: alternative.toList -> IsReadOver child) :
    (Form.conditional condition consequence alternative).IsReadOver isSpaced := by
  intro id rest
  have fits := canonical.fits
  obtain ⟨atCondition, others⟩ := List.forall_mem_cons.1 read
  obtain ⟨atConsequence, atAlternative⟩ := List.forall_mem_cons.1 others
  have conditionSolid := Form.isEmpty_of_isValue (Form.isValue_of_isParentheses fits.1)
  have alternativeSolid (tree : Tree) (member : tree ∈ alternative.toList) :
      IsReadOver tree ∧ tree.form.isEmpty = false := by
    refine ⟨atAlternative tree member, ?_⟩
    have isOtherwise := (fits.2.2 tree (Option.mem_toList.1 member)).1
    cases atForm : tree.form <;> simp_all [Form.isOtherwise, Form.isEmpty]
  change spacedBehind? false isSpaced (.token _ ::
    (condition.pieces .java ++ Pieces.statement .java .ifThen (consequence.map (Tree.printed .java)) ++
      Pieces.option (alternative.map (Tree.printed .java)) ++ _)) = _
  rw [spacedBehind?_token (by decide), List.append_assoc, List.append_assoc,
    atCondition.token conditionSolid isEmpty_of_unspaced, atConsequence.statement canonical.separates fits.2.1.2,
    readOver_option alternativeSolid]
  rfl

theorem readOver_otherwise
    {body : RightPadded Tree}
    (canonical : (Form.otherwise body).IsCanonical)
    (read : IsReadOver body.element) :
    (Form.otherwise body).IsReadOver isSpaced := by
  intro id rest
  change spacedBehind? false isSpaced (.token _ ::
    (Pieces.statement .java .elseBody (body.map (Tree.printed .java)) ++ _)) = _
  rw [spacedBehind?_token (by decide), read.statement canonical.separates.1 canonical.fits.2]
  rfl

theorem readOver_returns
    {value : Option Tree}
    (canonical : (Form.returns value).IsCanonical)
    (read : forall child, child ∈ value.toList -> IsReadOver child) :
    (Form.returns value).IsReadOver isSpaced := by
  intro id rest
  have solid (tree : Tree) (member : tree ∈ value.toList) : IsReadOver tree ∧ tree.form.isEmpty = false :=
    ⟨read tree member, Form.isEmpty_of_isValue (canonical.fits tree (Option.mem_toList.1 member))⟩
  change spacedBehind? false isSpaced (.token _ :: (Pieces.option (value.map (Tree.printed .java)) ++ _)) = _
  rw [spacedBehind?_token (by decide), readOver_option solid]
  rfl

theorem readOver_declaration
    {returnType body : Option Tree}
    {name : Tree}
    {parameters : Container Tree}
    (canonical : (Form.declaration returnType name parameters body).IsCanonical)
    (read : forall child, child ∈ (Form.declaration returnType name parameters body).children -> IsReadOver child) :
    (Form.declaration returnType name parameters body).IsReadOver isSpaced := by
  intro id rest
  have separates := canonical.separates
  obtain ⟨front, inBody⟩ := List.forall_mem_append.1 read
  obtain ⟨inType, others⟩ := List.forall_mem_append.1 front
  obtain ⟨atName, inParameters⟩ := List.forall_mem_cons.1 others
  obtain ⟨⟨present, rfl, isWords, -⟩, isName, fitsList, isBlock⟩ := canonical.fits
  have typeSolid := Form.isEmpty_of_isWords isWords
  have nameSolid := Form.isEmpty_of_isWords (Form.isWords_of_isIdentifier isName)
  have bodySolid (tree : Tree) (member : tree ∈ body.toList) : IsReadOver tree ∧ tree.form.isEmpty = false := by
    obtain ⟨_, _, atForm⟩ := Form.exists_of_isBlock (isBlock tree (Option.mem_toList.1 member))
    exact ⟨inBody tree member, by rw [atForm]; rfl⟩
  change spacedBehind? false isSpaced (present.pieces .java ++ name.pieces .java ++
    Pieces.container .methodDeclarationParameters _ (parameters.map (Tree.printed .java)) ++
      Pieces.option (body.map (Tree.printed .java)) ++ _) = _
  rw [List.append_assoc, List.append_assoc, List.append_assoc,
    (inType present (List.mem_singleton_self _)).token typeSolid fun _ => separates.1 present rfl,
    atName.token nameSolid isEmpty_of_unspaced,
    readOver_container ⟨by decide, by decide⟩ (fun _ => Form.isEmpty_of_isWords) inParameters separates.2.2 fitsList
      isEmpty_of_unspaced,
    readOver_option bodySolid]
  rfl

end Statements

/-! ### Values -/

section Values

variable {isSpaced : Bool} {typeTag : Option Text}

/-- Two parts with a sign between them, and a space before the sign. -/
theorem readOver_joined
    {left right : Tree}
    {place : SpacePlace}
    {before : Space}
    {sign : Text}
    {rest : Pieces}
    (known : place ≠ .unknownPrefix)
    (firm : isFirm false sign = true)
    (atLeft : IsReadOver left)
    (leftSolid : left.form.isEmpty = false)
    (atRight : IsReadOver right)
    (rightSolid : right.form.isEmpty = false)
    (fits : isSpaced = true -> left.leading.isEmpty = true) :
    spacedBehind? false isSpaced (left.pieces .java ++ .space place before :: .token sign :: right.pieces .java ++ rest) =
      spacedBehind? false false rest := by
  rw [List.append_assoc, List.cons_append, List.cons_append, atLeft.token leftSolid fits,
    spacedBehind?_space known isEmpty_of_unspaced, spacedBehind?_token firm,
    atRight.token rightSolid isEmpty_of_unspaced]

theorem readOver_assignment
    {target : Tree}
    {value : LeftPadded Tree}
    (canonical : (Form.assignment target value typeTag).IsCanonical)
    (atTarget : IsReadOver target)
    (atValue : IsReadOver value.element) :
    (Form.assignment target value typeTag).IsReadOver isSpaced := by
  intro id rest
  have targetSolid := Form.isEmpty_of_isValue (Form.isValue_of_isOperand canonical.fits.1)
  have valueSolid := Form.isEmpty_of_isValue canonical.fits.2.1
  have isSign : isFirm false ['='] = true := by decide
  exact readOver_joined (by decide) isSign atTarget targetSolid atValue valueSolid fun _ => canonical.separates

theorem readOver_binary
    {left right : Tree}
    {operator : LeftPadded Operator}
    (canonical : (Form.binary left operator right typeTag).IsCanonical)
    (atLeft : IsReadOver left)
    (atRight : IsReadOver right) :
    (Form.binary left operator right typeTag).IsReadOver isSpaced := by
  intro id rest
  have leftSolid := Form.isEmpty_of_isValue (Form.isValue_of_isOperand canonical.fits.1.1)
  have rightSolid := Form.isEmpty_of_isValue (Form.isValue_of_isOperand canonical.fits.2.1.1)
  have isSign := isFirm_symbol operator.element
  exact readOver_joined (by decide) isSign atLeft leftSolid atRight rightSolid fun _ => canonical.separates.1

theorem readOver_fieldAccess
    {target : Tree}
    {name : LeftPadded Tree}
    (canonical : (Form.fieldAccess target name typeTag).IsCanonical)
    (atTarget : IsReadOver target)
    (atName : IsReadOver name.element) :
    (Form.fieldAccess target name typeTag).IsReadOver isSpaced := by
  intro id rest
  have targetSolid := Form.isEmpty_of_isValue (Form.isValue_of_isChain canonical.fits.1)
  have nameSolid := Form.isEmpty_of_isWords (Form.isWords_of_isIdentifier canonical.fits.2.1)
  have isSign : isFirm false ['.'] = true := by decide
  exact readOver_joined (by decide) isSign atTarget targetSolid atName nameSolid fun _ => canonical.separates.1

theorem readOver_plainCall
    {name : Tree}
    {arguments : Container Tree}
    (canonical : (Form.call none name arguments typeTag).IsCanonical)
    (atName : IsReadOver name)
    (inArguments : forall child, child ∈ arguments.elements -> IsReadOver child) :
    (Form.call none name arguments typeTag).IsReadOver isSpaced := by
  intro id rest
  have separates := canonical.separates
  have nameSolid := Form.isEmpty_of_isWords (Form.isWords_of_isIdentifier canonical.fits.2.1)
  change spacedBehind? false isSpaced (name.pieces .java ++
    Pieces.container .methodInvocationArguments _ (arguments.map (Tree.printed .java)) ++ _) = _
  rw [List.append_assoc, atName.token nameSolid fun _ => separates.1, readOver_container ⟨by decide, by decide⟩
    (fun _ => Form.isEmpty_of_isValue) inArguments separates.2 canonical.fits.2.2.1 isEmpty_of_unspaced]
  rfl

theorem readOver_call
    {receiver : RightPadded Tree}
    {name : Tree}
    {arguments : Container Tree}
    (canonical : (Form.call (some receiver) name arguments typeTag).IsCanonical)
    (atReceiver : IsReadOver receiver.element)
    (atName : IsReadOver name)
    (inArguments : forall child, child ∈ arguments.elements -> IsReadOver child) :
    (Form.call (some receiver) name arguments typeTag).IsReadOver isSpaced := by
  intro id rest
  have fits := canonical.fits
  have separates := canonical.separates
  have receiverSolid := Form.isEmpty_of_isValue (Form.isValue_of_isChain fits.1.1)
  have nameSolid := Form.isEmpty_of_isWords (Form.isWords_of_isIdentifier fits.2.1)
  change spacedBehind? false isSpaced (receiver.element.pieces .java ++ [.space _ receiver.after, .token _] ++
    name.pieces .java ++ Pieces.container .methodInvocationArguments _ (arguments.map (Tree.printed .java)) ++ _) = _
  rw [List.append_assoc, List.append_assoc, List.append_assoc, List.cons_append, List.singleton_append,
    atReceiver.token receiverSolid fun _ => separates.1, spacedBehind?_space (by decide) isEmpty_of_unspaced,
    spacedBehind?_token (by decide), atName.token nameSolid isEmpty_of_unspaced, readOver_container
    ⟨by decide, by decide⟩ (fun _ => Form.isEmpty_of_isValue) inArguments separates.2.1 fits.2.2.1 isEmpty_of_unspaced]
  rfl

theorem readOver_parentheses
    {inner : RightPadded Tree}
    (canonical : (Form.parentheses inner).IsCanonical)
    (atInner : IsReadOver inner.element) :
    (Form.parentheses inner).IsReadOver isSpaced := by
  intro id rest
  have innerSolid := Form.isEmpty_of_isValue canonical.fits.1
  change spacedBehind? false isSpaced (.token _ ::
    (inner.element.pieces .java ++ [.space _ inner.after, .token _] ++ _)) = _
  rw [spacedBehind?_token (by decide), List.append_assoc, List.cons_append, List.singleton_append,
    atInner.token innerSolid isEmpty_of_unspaced, spacedBehind?_space (by decide) isEmpty_of_unspaced, spacedBehind?_token (by decide)]
  rfl

theorem readOver_collection
    {kind : CollectionKind}
    {elements : Container Tree}
    (canonical : (Form.collection kind elements typeTag).IsCanonical)
    (read : forall child, child ∈ elements.elements -> IsReadOver child) :
    (Form.collection kind elements typeTag).IsReadOver isSpaced := by
  intro id rest
  have separates := canonical.separates
  obtain ⟨rfl, fitsList, -⟩ := canonical.fits
  exact readOver_container ⟨by decide, by decide⟩ (fun _ => Form.isEmpty_of_isValue) read separates.2 fitsList
    fun _ => separates.1

end Values

/-! ### Nodes -/

section Nodes

variable {isSpaced : Bool}

/-- The form of a canonical node is read over when its children are. -/
theorem readOver_known
    {form : Form Tree}
    (canonical : form.IsCanonical)
    (noUnit : form.isUnit = false)
    (known : form.leadingPlace ≠ .unknownPrefix)
    (read : forall child, child ∈ form.children -> IsReadOver child) :
    form.IsReadOver isSpaced := by
  cases form with
  | compilationUnit => cases noUnit
  | block statements closing => exact readOver_block canonical read
  | conditional condition consequence alternative => exact readOver_conditional canonical read
  | otherwise body => exact readOver_otherwise canonical (List.forall_mem_singleton.1 read)
  | returns value => exact readOver_returns canonical read
  | assignment target value typeTag =>
      obtain ⟨atTarget, atValue⟩ := List.forall_mem_cons.1 read
      exact readOver_assignment canonical atTarget (List.forall_mem_singleton.1 atValue)
  | binary left operator right typeTag =>
      obtain ⟨atLeft, atRight⟩ := List.forall_mem_cons.1 read
      exact readOver_binary canonical atLeft (List.forall_mem_singleton.1 atRight)
  | identifier name typeTag => exact fun id rest => spacedBehind?_token (isFirm_of_isName canonical.fits.1)
  | literal source typeTag => exact fun id rest => spacedBehind?_token (isFirm_of_literal canonical.fits.1)
  | fieldAccess target name typeTag =>
      obtain ⟨atTarget, atName⟩ := List.forall_mem_cons.1 read
      exact readOver_fieldAccess canonical atTarget (List.forall_mem_singleton.1 atName)
  | call receiver name arguments typeTag =>
      obtain ⟨atReceiver, others⟩ := List.forall_mem_append.1 read
      obtain ⟨atName, inArguments⟩ := List.forall_mem_cons.1 others
      cases receiver with
      | none => exact readOver_plainCall canonical atName inArguments
      | some receiver =>
          exact readOver_call canonical (List.forall_mem_singleton.1 atReceiver) atName inArguments
  | declaration returnType name parameters body => exact readOver_declaration canonical read
  | parentheses inner => exact readOver_parentheses canonical (List.forall_mem_singleton.1 read)
  | collection kind elements typeTag => exact readOver_collection canonical read
  | empty => exact fun _ _ => rfl
  | unknown text => exact absurd rfl known

theorem readOver_form
    {form : Form Tree}
    (canonical : form.IsCanonical)
    (noUnit : form.isUnit = false)
    (read : forall child, child ∈ form.children -> IsReadOver child)
    (id : Stamp)
    (rest : Pieces) :
    spacedBehind? (form.leadingPlace = .unknownPrefix) isSpaced
        (Pieces.form .java (form.map (Tree.printed .java)) ++ .finish id :: rest) =
      spacedBehind? false (form.isEmpty && isSpaced) rest := by
  by_cases known : form.leadingPlace = .unknownPrefix
  · cases form with
    | unknown text =>
        change (if isFirm true text = true then _ else _) = _
        rw [if_pos (isFirm_of_areWords canonical.fits)]
        rfl
    | _ => cases known
  · rw [decide_eq_false known]
    exact readOver_known canonical noUnit known read id rest

end Nodes

/-- A canonical tree is read over. -/
theorem Tree.IsPart.isReadOver
    {tree : Tree}
    (part : tree.IsPart)
    (noUnit : tree.form.isUnit = false) :
    IsReadOver tree := by
  induction tree using Tree.induction with
  | step head form ih =>
      have children (child : Tree) (member : child ∈ form.children) : IsReadOver child :=
        ih child member (part.canonical.part member) (part.canonical.root.fits.isUnit_child child member)
      intro isUnknown isSpaced rest fits
      have forms (isSpaced : Bool) : spacedBehind? (form.leadingPlace = .unknownPrefix) isSpaced
          (Pieces.form .java (form.map (Tree.printed .java)) ++ .finish head.id :: rest) =
            spacedBehind? false (form.isEmpty && isSpaced) rest :=
        readOver_form part.canonical.root noUnit children head.id rest
      rw [Tree.pieces_node, List.cons_append, List.cons_append, List.append_assoc, List.singleton_append]
      exact (spacedBehind?_leading fits).trans (forms _)

/-- Nothing but one space stands between two tokens of a unit that can be read, and the tokens are firm. -/
theorem exists_spacedBehind?
    {tree : Tree}
    {path : Path}
    (unit : tree.IsUnitOf path) :
    exists isSpaced, spacedBehind? false false (tree.pieces .java) = some isSpaced := by
  obtain ⟨head, form⟩ := tree
  obtain ⟨statements, eof, atForm⟩ := unit.isUnit
  obtain rfl : form = _ := atForm
  have root := unit.canonical.root
  have read (child : Tree) (member : child ∈ RightPadded.elements statements) : IsReadOver child :=
    (unit.canonical.part member).isReadOver (root.fits.isUnit_child child member)
  have unmarked (padded : RightPadded Tree) (member : padded ∈ statements) : padded.markers.toList = [] :=
    (root.fits.2.1 padded member).2
  have nothing : head.leading.isEmpty = true := unit.isEmpty
  have leading : Form.leadingPlace (.compilationUnit .java ⟨path, Option.none, Option.none⟩ statements eof) ≠
      .unknownPrefix :=
    nofun
  have start (rest : Pieces) :
      spacedBehind? false false (.start head.id head.markers :: rest) = spacedBehind? false false rest := rfl
  rw [Tree.pieces_node, spacedBehind?_space leading isEmpty_of_unspaced, nothing, Bool.not_true, Bool.or_false]
  simp only [Form.map, Pieces.form, List.append_assoc, List.singleton_append, start]
  rw [readOver_statements read root.separates unmarked, spacedBehind?_space (by decide) isEmpty_of_unspaced]
  exact ⟨_, rfl⟩

end Java
end Lossless
