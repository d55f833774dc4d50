import Lossless.Proofs.Java.Complete.Chain

/-!
# Expressions are read back

Operations and assignments. An operation that is written up to where only looser operators go on takes the
loop over operators as far as its right operand. Then every written value is read back where it ends, by
the parser of expressions with enough nestings.
-/

namespace Lossless
namespace Java

open Lossless.Parser
open Java.Parser

variable {text rest : Text} {leading : Space} {tree : Tree}

/-! ## Where an operand ends -/

/-- The text ends an operand: no token of it goes on, and only looser operators follow. -/
structure EndsOperand
    (precedence : Nat)
    (text : Text) : Prop where
  name : EndsName text
  number : text.startsIn isNumberPart = false
  noDot : forall run after, scanGap text = .ok (run, after) -> Text.dropStart? ['.'] after = none
  next : NextBelow precedence text

namespace EndsOperand

variable {precedence : Nat}

theorem of_gap
    {space : Space}
    {first : Char}
    {after : Text}
    (isGap : space.IsGap)
    (member : first ∈ punctuation)
    (notParen : first ≠ '(')
    (notDot : first ≠ '.')
    (solid : Text.isSolid (first :: after) = true)
    (next : forall operator left, operatorNext? (first :: after) = some (operator, left) ->
      operator.precedence < precedence) :
    EndsOperand precedence (space.render .slash ++ first :: after) := by
  have scanned := scanGap_render isGap solid fun isFinal => by cases isFinal
  refine ⟨.of_gap isGap member notParen solid, ?_, ?_, ?_⟩
  · exact startsIn_numberPart_of_gap isGap member after fun isDot => absurd isDot notDot
  · intro run behind scannedAgain
    rw [scanned] at scannedAgain
    obtain ⟨-, rfl⟩ : space.render .slash = run ∧ first :: after = behind := by
      simpa using scannedAgain
    simp [Text.dropStart?, Ne.symm notDot]
  · intro run behind operator left scannedAgain found
    rw [scanned] at scannedAgain
    obtain ⟨-, rfl⟩ : space.render .slash = run ∧ first :: after = behind := by
      simpa using scannedAgain
    exact next operator left found

theorem mono
    {other : Nat}
    (ends : EndsOperand precedence text)
    (le : precedence ≤ other) :
    EndsOperand other text where
  name := ends.name
  number := ends.number
  noDot := ends.noDot
  next := fun run after operator left scanned found =>
    Nat.lt_of_lt_of_le (ends.next run after operator left scanned found) le

theorem endsChain
    (ends : EndsOperand precedence text)
    (tree : Tree) :
    EndsChain tree text :=
  ⟨ends.name, fun _ => ends.number⟩

end EndsOperand

theorem operatorNext?_of_closer
    {close : Char}
    (member : close ∈ closers)
    (after : Text) :
    operatorNext? (close :: after) = none := by
  simp only [closers, List.mem_cons, List.not_mem_nil, or_false] at member
  rcases member with rfl | rfl | rfl | rfl <;> rfl

/-- Where a value ends, an operand does. -/
theorem EndsValue.endsOperand
    (ends : EndsValue text) :
    EndsOperand 0 text := by
  obtain ⟨space, close, after, isGap, member, rfl⟩ := ends
  have apart : close ≠ '(' ∧ close ≠ '.' := by
    constructor <;> rintro rfl <;> revert member <;> decide
  refine .of_gap isGap (mem_punctuation_of_mem_closers member) apart.1 apart.2
    (isSolid_of_closer member after) ?_
  intro operator left found
  rw [operatorNext?_of_closer member] at found
  cases found

/-! ## Operators -/

/-- Behind a gap and a value no sign of equality comes next. -/
theorem startsIn_equals_of_value
    (isGap : leading.IsGap)
    (starts : text.startsIn opensValue = true) :
    (leading.render .slash ++ text).startsIn (· = '=') = false := by
  refine Space.startsIn_render ?_ (by decide) isGap.blank fun _ => ?_
  · intro char blank
    refine decide_eq_false ?_
    rintro rfl
    revert blank
    decide
  · cases text with
    | nil => cases starts
    | cons first more =>
        refine decide_eq_false ?_
        rintro rfl
        exact (ne_of_opensValue starts).2 (by decide)

/-- A sign does not come next in a text that does not start with it. -/
theorem dropStart?_of_startsIn
    {sign : Char}
    (apart : text.startsIn (· = sign) = false)
    (more : Text) :
    Text.dropStart? (sign :: more) text = none := by
  cases text with
  | nil => rfl
  | cons first behind =>
      have other : sign ≠ first := by
        rintro rfl
        simp [Text.startsIn] at apart
      rw [Text.dropStart?, if_neg other]

/-- A written operator is read, unless an equality sign comes after it. -/
theorem operatorNext?_symbol
    (operator : Operator)
    (noEquals : text.startsIn (· = '=') = false) :
    operatorNext? (operator.symbol .java ++ text) = some (operator, text) := by
  have noSign := dropStart?_of_startsIn noEquals []
  cases operator <;> simp [operatorNext?, Operator.all, Operator.symbol, Text.dropStart?, noSign]

/-- A slash is a token, when no comment opens with it. -/
theorem isSolid_slash
    (noSlash : Text.dropStart? ['/'] text = none)
    (noStar : Text.dropStart? ['*'] text = none) :
    Text.isSolid ('/' :: text) = true := by
  have notBlank : Text.isBlank '/' = false := by decide
  have plain : Text.startsComment ('/' :: text) = false := by
    apply Text.startsComment_eq_false
    · rintro body - rfl
      simp [Text.dropStart?] at noSlash
    · rintro body - rfl
      simp [Text.dropStart?] at noStar
  simp [Text.isSolid, notBlank, plain]

/-- An operator is a token, when no comment opens with it. -/
theorem isSolid_symbol
    (operator : Operator)
    (isGap : leading.IsGap)
    (starts : text.startsIn opensValue = true)
    (noComment : operator = .division -> leading.startsComment = false) :
    Text.isSolid (operator.symbol .java ++ (leading.render .slash ++ text)) = true := by
  cases operator with
  | division =>
      obtain ⟨stamp, whitespace, comments⟩ := leading
      cases whitespace with
      | cons first more =>
          have blank : Text.isBlank first = true := by
            have all := isGap.blank
            simp only [List.all_cons, Bool.and_eq_true] at all
            exact all.1
          have notSign : first ≠ '/' ∧ first ≠ '*' := by
            constructor <;>
            · rintro rfl
              revert blank
              decide
          apply isSolid_slash <;>
            simp [Space.render, Text.dropStart?, Ne.symm notSign.1, Ne.symm notSign.2]
      | nil =>
          cases comments with
          | cons comment others => cases noComment rfl
          | nil =>
              apply isSolid_slash
              · exact dropStart?_of_opensValue starts (by decide) []
              · exact dropStart?_of_opensValue starts (by decide) []
  | _ => exact isSolid_of_punctuation (by decide) (by decide) _

/-! ## Operations -/

/-- The loop over operators ends where only looser ones follow. -/
theorem operations_end
    {operand : Nat -> Space -> Parser Tree}
    {precedence fuel : Nat}
    (enough : 0 < fuel)
    (ends : EndsOperand precedence text)
    (tree : Tree) :
    operations operand precedence fuel tree text = .ok (tree, text) := by
  obtain ⟨fuel, rfl⟩ : ∃ less, fuel = less + 1 := ⟨fuel - 1, by omega⟩
  obtain ⟨-, run, after, scanned, -⟩ := ends.name
  rw [operations, bind_get, bind_of_ok (gap_eq_ok.2 ⟨run, scanned, rfl⟩), bind_get]
  cases found : operatorNext? after with
  | none => rfl
  | some pair =>
      obtain ⟨operator, left⟩ := pair
      have loose := ends.next run after operator left scanned found
      dsimp only
      rw [if_neg (by omega)]
      rfl

section Expression

variable {expression : Space -> Parser Tree} {bound : Nat}

/-- A written operand is read back by a parser of operands. -/
def ReadsBack
    (bound precedence : Nat)
    (operand : Space -> Parser Tree) : Prop :=
  forall {leading : Space} {tree : Tree} {rest : Text},
    tree.IsCanonical -> tree.form.isOperand = true -> precedence ≤ tree.form.tightness ->
      EndsOperand precedence rest -> (tree.form.written ++ rest).length ≤ bound ->
        operand leading (tree.form.written ++ rest) = .ok (tree.placed leading, rest)

/-- A written operator and its right operand are read. -/
theorem operations_step
    {operand : Nat -> Space -> Parser Tree}
    {precedence fuel : Nat}
    {operator : LeftPadded Operator}
    {right : Tree}
    (readsRight : ReadsBack bound (operator.element.precedence + 1)
      (operand (operator.element.precedence + 1)))
    (tighter : precedence ≤ operator.element.precedence)
    (isGap : operator.before.IsGap)
    (part : right.IsPart)
    (isOperand : right.form.isOperand = true)
    (tight : operator.element.precedence < right.form.tightness)
    (noComment : operator.element = .division -> right.leading.startsComment = false)
    (ends : EndsOperand (operator.element.precedence + 1) rest)
    (short : (right.form.written ++ rest).length ≤ bound)
    (tree : Tree) :
    operations operand precedence (fuel + 1) tree
        (operator.before.render .slash ++ (operator.element.symbol .java ++
          (right.leading.render .slash ++ (right.form.written ++ rest)))) =
      operations operand precedence fuel
        (tree.leadingFrom fun left =>
          .binary left ⟨operator.before.renewed, operator.element, .empty⟩ right.renewed none)
        rest := by
  have starts := Text.startsIn_append
    (startsIn_opensValue part.canonical (.inl (Form.isValue_of_isOperand isOperand))) rest
  have solid := isSolid_symbol operator.element part.leading starts noComment
  have found := operatorNext?_symbol operator.element (startsIn_equals_of_value part.leading starts)
  have readRight : operand (operator.element.precedence + 1) right.leading.renewed
      (right.form.written ++ rest) = .ok (right.placed right.leading.renewed, rest) :=
    readsRight part.canonical isOperand tight ends short
  rw [operations, bind_get, bind_of_ok (gap_render isGap solid fun isFinal => by cases isFinal),
    bind_get, found]
  dsimp only
  rw [if_pos tighter, bind_set,
    bind_of_ok (gap_render part.leading (isSolid_of_opensValue starts) fun isFinal => by cases isFinal),
    bind_of_ok readRight, part.renewed]

/-- Where an operator follows, an operand ends that binds at least as tightly. -/
theorem endsOperand_of_symbol
    {precedence : Nat}
    {operator : LeftPadded Operator}
    {after : Text}
    (isGap : operator.before.IsGap)
    (solid : Text.isSolid (operator.element.symbol .java ++ after) = true)
    (found : operatorNext? (operator.element.symbol .java ++ after) = some (operator.element, after))
    (tight : operator.element.precedence < precedence) :
    EndsOperand precedence
      (operator.before.render .slash ++ (operator.element.symbol .java ++ after)) := by
  obtain ⟨first, more, symbol, member, notParen, notDot⟩ : ∃ first more,
      operator.element.symbol .java = first :: more ∧ first ∈ punctuation ∧ first ≠ '(' ∧
        first ≠ '.' := by
    cases operator.element <;> exact ⟨_, _, rfl, by decide, by decide, by decide⟩
  rw [symbol, List.cons_append] at solid found ⊢
  refine .of_gap isGap member notParen notDot solid ?_
  intro other left foundOther
  rw [found] at foundOther
  obtain ⟨rfl, -⟩ : operator.element = other ∧ after = left := by simpa using foundOther
  exact tight

variable (complete : IsComplete Form.isValue bound expression)

include complete

/-- A written chain is read back where no dot follows. -/
theorem chained_complete
    {precedence : Nat}
    (canonical : tree.IsCanonical)
    (isChain : tree.form.isChain = true)
    (ends : EndsOperand precedence rest)
    (short : (tree.form.written ++ rest).length ≤ bound) :
    chained expression leading (tree.form.written ++ rest) = .ok (tree.placed leading, rest) := by
  obtain ⟨first, middle, readFirst, go⟩ :=
    chain_complete complete canonical isChain (ends.endsChain tree) short
  obtain ⟨left, more, equal⟩ := go (middle.length + 1) (Nat.lt_succ_self _)
  obtain ⟨-, run, after, scanned, -⟩ := ends.name
  rw [chained, bind_of_ok readFirst, bind_get, equal]
  exact postfixes_end (by omega) scanned (ends.noDot run after scanned) _

/-- A written operand takes the loop over operators as far as its last part. -/
theorem operand_complete
    {operand : Nat -> Space -> Parser Tree}
    {precedence : Nat}
    (readsRight : forall operator : Operator, precedence ≤ operator.precedence ->
      ReadsBack bound (operator.precedence + 1) (operand (operator.precedence + 1)))
    (canonical : tree.IsCanonical)
    (isOperand : tree.form.isOperand = true)
    (tight : precedence ≤ tree.form.tightness)
    (ends : EndsOperand (tree.form.tightness + 1) rest)
    (short : (tree.form.written ++ rest).length ≤ bound) :
    ∃ first middle, chained expression leading (tree.form.written ++ rest) = .ok (first, middle) ∧
      forall fuel, middle.length < fuel -> ∃ left, rest.length < left ∧
        operations operand precedence fuel first middle =
          operations operand precedence left (tree.placed leading) rest := by
  induction tree using Tree.induction generalizing rest with
  | step head form ih =>
      cases isChain : form.isChain with
      | true =>
          exact ⟨_, rest, chained_complete complete canonical isChain ends short,
            fun fuel enough => ⟨fuel, enough, rfl⟩⟩
      | false =>
          obtain ⟨fits, separates, gaps, -, -, -⟩ := canonical.root
          obtain ⟨left, operator, right, typeTag, rfl⟩ := Form.exists_of_isOperand isOperand isChain
          obtain ⟨⟨leftIsOperand, leftTight⟩, ⟨rightIsOperand, rightTight⟩, noMarkers, rfl⟩ := fits
          obtain ⟨noSpace, noComment⟩ := separates
          have leftPart : left.IsPart := canonical.part (by simp [Form.children])
          have rightPart : right.IsPart := canonical.part (by simp [Form.children])
          have isGap := gaps operator.before (by simp [Form.gaps])
          have starts := Text.startsIn_append (startsIn_opensValue rightPart.canonical
            (.inl (Form.isValue_of_isOperand rightIsOperand))) rest
          have leftEnds := endsOperand_of_symbol isGap
            (isSolid_symbol operator.element rightPart.leading starts noComment)
            (operatorNext?_symbol operator.element
              (startsIn_equals_of_value rightPart.leading starts))
            (Nat.lt_succ_of_le leftTight)
          have whole : (Form.binary left operator right none).written ++ rest =
              left.form.written ++ (operator.before.render .slash ++
                (operator.element.symbol .java ++
                  (right.leading.render .slash ++ (right.form.written ++ rest)))) := by
            simp [Tree.written_of_isEmpty noSpace, right.written_eq]
          rw [Tree.form_node, whole] at short ⊢
          obtain ⟨first, middle, readFirst, go⟩ := ih left (by simp [Form.children])
            leftPart.canonical leftIsOperand (Nat.le_trans tight leftTight) leftEnds short
          refine ⟨first, middle, readFirst, fun fuel enough => ?_⟩
          obtain ⟨more, longer, equal⟩ := go fuel enough
          obtain ⟨more, rfl⟩ : ∃ less, more = less + 1 := ⟨more - 1, by omega⟩
          have symbolLength := List.length_pos_iff.2 (symbol_ne_nil operator.element)
          simp only [List.length_append] at longer short
          refine ⟨more, by omega, ?_⟩
          rw [equal, operations_step (readsRight operator.element tight) tight isGap rightPart
            rightIsOperand rightTight noComment ends (by rw [List.length_append]; omega),
            Tree.placed, Tree.leadingFrom_spaced, ← Tree.placed,
            ← Tree.renewed_eq_placed_empty leftPart.unmarked noSpace, Tree.placed,
            Tree.form_node, Form.renewed, LeftPadded.renewed, Markers.renewed_of_toList noMarkers]
          rfl

/-- A written operation is read back by the parser of enough levels. -/
theorem binary_complete
    (levels : Nat)
    {precedence : Nat}
    (enough : operatorLevels ≤ levels + precedence) :
    ReadsBack bound precedence (binary expression levels precedence) := by
  induction levels generalizing precedence with
  | zero =>
      intro leading tree rest canonical isOperand tight ends short
      refine chained_complete complete canonical ?_ ends short
      rw [Form.isChain, isOperand, Bool.true_and, decide_eq_true_eq]
      omega
  | succ levels ih =>
      intro leading tree rest canonical isOperand tight ends short
      have readsRight : forall operator : Operator, precedence ≤ operator.precedence ->
          ReadsBack bound (operator.precedence + 1)
            (binary expression levels (operator.precedence + 1)) :=
        fun operator tighter => ih (by omega)
      obtain ⟨first, middle, readFirst, go⟩ := operand_complete complete readsRight canonical
        isOperand tight (ends.mono (Nat.le_succ_of_le tight)) short
      obtain ⟨left, more, equal⟩ := go (middle.length + 1) (Nat.lt_succ_self _)
      rw [binary, bind_of_ok readFirst, bind_get, equal]
      exact operations_end (by omega) ends _

/-! ## Assignments -/

omit complete in
/-- The target of an assignment ends before the sign. -/
theorem endsOperand_of_equals
    {before : Space}
    (isGap : before.IsGap)
    (noEquals : text.startsIn (· = '=') = false)
    (precedence : Nat) :
    EndsOperand precedence (before.render .slash ++ '=' :: text) := by
  refine .of_gap isGap (by decide) (by decide) (by decide)
    (isSolid_of_punctuation (by decide) (by decide) text) ?_
  intro operator left found
  have noSign := dropStart?_of_startsIn noEquals []
  have none : operatorNext? ('=' :: text) = none := by
    simp [operatorNext?, Operator.all, Operator.symbol, Text.dropStart?, noSign]
  rw [none] at found
  cases found

/-- A step of the parser of expressions reads back values that are longer by one character. -/
theorem expressionStep_complete :
    IsComplete Form.isValue (bound + 1) (expressionStep expression) := by
  intro leading tree rest canonical isValue ends short
  have readsTarget : ReadsBack bound 0 (binary expression operatorLevels 0) :=
    binary_complete complete operatorLevels (Nat.le_refl _)
  cases isOperand : tree.form.isOperand with
  | true =>
      have readTarget : binary expression operatorLevels 0 leading (tree.form.written ++ rest) =
          .ok (tree.placed leading, rest) :=
        readsTarget canonical isOperand (Nat.zero_le _) ends.endsOperand (Nat.le_of_lt_succ short)
      obtain ⟨space, close, after, isGap, member, rfl⟩ := ends
      have noEquals : '=' ≠ close := by
        rintro rfl
        revert member
        decide
      have solid := isSolid_of_closer member after
      have looked : isNext ['=', '='] (close :: after) = .ok (false, close :: after) := by
        rw [isNext_eq, Text.dropStart?, if_neg noEquals]
        rfl
      have refused : accept ['='] (close :: after) = .ok (false, close :: after) :=
        accept_of_none (by simp [Text.dropStart?, noEquals])
      rw [expressionStep, bind_of_ok readTarget, bind_get,
        bind_of_ok (gap_render isGap solid fun isFinal => by cases isFinal), bind_of_ok looked,
        bind_of_ok refused]
      rfl
  | false =>
      obtain ⟨head, form⟩ := tree
      obtain ⟨fits, noSpace, gaps, -, -, -⟩ := canonical.root
      cases form with
      | assignment target value typeTag =>
          obtain ⟨targetIsOperand, valueIsValue, noMarkers, rfl⟩ := fits
          have targetPart : target.IsPart := canonical.part (by simp [Form.children])
          have valuePart : value.element.IsPart := canonical.part (by simp [Form.children])
          have isGap := gaps value.before (by simp [Form.gaps])
          have starts := Text.startsIn_append
            (startsIn_opensValue valuePart.canonical (.inl valueIsValue)) rest
          have apart := startsIn_equals_of_value valuePart.leading starts
          have noSign := dropStart?_of_startsIn apart []
          have whole : (Form.assignment target value none).written ++ rest =
              target.form.written ++ (value.before.render .slash ++
                '=' :: (value.element.leading.render .slash ++
                  (value.element.form.written ++ rest))) := by
            simp [Tree.written_of_isEmpty noSpace, value.element.written_eq]
          rw [Tree.form_node, whole] at short ⊢
          have readTarget : binary expression operatorLevels 0 leading
              (target.form.written ++ (value.before.render .slash ++
                '=' :: (value.element.leading.render .slash ++
                  (value.element.form.written ++ rest)))) = .ok (target.placed leading, _) :=
            readsTarget targetPart.canonical targetIsOperand (Nat.zero_le _)
              (endsOperand_of_equals isGap apart 0) (Nat.le_of_lt_succ short)
          have solid : Text.isSolid ('=' :: (value.element.leading.render .slash ++
              (value.element.form.written ++ rest))) = true :=
            isSolid_of_punctuation (by decide) (by decide) _
          have looked := isNext_eq ['=', '='] ('=' :: (value.element.leading.render .slash ++
            (value.element.form.written ++ rest)))
          rw [Text.dropStart?, if_pos rfl, noSign] at looked
          have readValue : expression value.element.leading.renewed
              (value.element.form.written ++ rest) =
                .ok (value.element.placed value.element.leading.renewed, rest) := by
            refine complete valuePart.canonical valueIsValue ends ?_
            simp only [List.length_append, List.length_cons] at short ⊢
            omega
          rw [expressionStep, bind_of_ok readTarget, bind_get,
            bind_of_ok (gap_render isGap solid fun isFinal => by cases isFinal), bind_of_ok looked,
            bind_of_ok (accept_cons _ _), if_pos (by decide),
            bind_of_ok (gap_render valuePart.leading (isSolid_of_opensValue starts)
              fun isFinal => by cases isFinal),
            bind_of_ok readValue, run_pure]
          have noMarkers := Markers.renewed_of_toList noMarkers
          have targetRenewed := Tree.renewed_eq_placed_empty targetPart.unmarked noSpace
          simp only [Tree.placed, Tree.leadingFrom_spaced, Tree.form_node, Form.renewed,
            LeftPadded.renewed, valuePart.renewed, targetRenewed, noMarkers]
      | _ => exact Bool.noConfusion (Eq.trans isValue.symm isOperand)

end Expression

/-- With enough nestings every written value is read back. -/
theorem expressionWithin_complete (nestings : Nat) :
    IsComplete Form.isValue nestings (expressionWithin nestings) := by
  induction nestings with
  | zero =>
      intro leading tree rest _ _ _ short
      exact absurd short (Nat.not_lt_zero _)
  | succ nestings ih => exact expressionStep_complete ih

/-- Every written value is read back where it ends. -/
theorem expression_complete
    (canonical : tree.IsCanonical)
    (isValue : tree.form.isValue = true)
    (ends : EndsValue rest) :
    Parser.expression leading (tree.form.written ++ rest) = .ok (tree.placed leading, rest) := by
  rw [Parser.expression, bind_get]
  exact expressionWithin_complete _ canonical isValue ends (Nat.lt_succ_self _)

end Java
end Lossless
