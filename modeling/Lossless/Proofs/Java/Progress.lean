import Lossless.Proofs.Java.Cases
import Lossless.Proofs.Java.Sound.Expression
import Lossless.Proofs.Parser.Progress
import Mathlib.Data.List.Basic

/-!
# The grammar of syntax trees goes forward

Every step of the grammar goes forward, and the ones that read a statement, an expression or one of their parts pass
some character. The expressions and statements inside another one start behind its start, so reading them with as many
nestings as there are characters is reading them with any number of nestings.

Each step is written over the parser of what is inside it. It is compared with itself over another such parser that goes
forward alike on texts with fewer characters than `limit`.
-/

namespace Lossless
namespace Java

open Lossless.Parser
open Java.Parser

variable {text rest : Text} {limit : Nat}

/-! ## Words -/

theorem forward_isKeywordNext (keyword : Text) : (isKeywordNext keyword).Forward fun _ => 0 := by
  intro text
  refine .get ?_
  rcases Text.dropStart? keyword text with _ | _ | _ <;> exact .pure (.refl text)

theorem forward_isIdentifierNext : isIdentifierNext.Forward fun _ => 0 :=
  .ofLook fun _ => isIdentifierNext_eq_ok.2 ⟨rfl, rfl⟩

theorem forward_identifier : identifier.Forward fun _ => 1 := by
  intro text
  cases outcome : identifier text with
  | ok step =>
      obtain ⟨name, rest⟩ := step
      obtain ⟨rfl, isName, -⟩ := identifier_eq_ok.1 outcome
      exact .ok ((Text.passes_append name rest).mono (List.length_pos_iff.2 (ne_nil_of_isName isName)))
  | error fault =>
      rw [identifier, bind_of_ok (isIdentifierNext_eq_ok.2 ⟨rfl, rfl⟩)] at outcome
      split at outcome
      · cases outcome
      · cases outcome
        exact .error (.refl text) nofun

namespace Parser

/-- One more identifier with the gap before it, if there is one. -/
def wordTurn : Parser (LoopTurn (Text × Text) Unit) := do
  let saved <- get
  let run <- gapText
  if <- isIdentifierNext then
    return .again (run, <- identifier)
  else
    set saved
    return .done ()

end Parser

theorem moreWords_eq_collect (bound : Nat) : moreWords bound = Prod.fst <$> collect wordTurn bound := by
  induction bound with
  | zero => rfl
  | succ bound ih =>
      simp only [moreWords, collect, wordTurn, ih, map_bind, bind_assoc]
      refine bind_congr fun saved => bind_congr fun run => bind_congr fun found => ?_
      split <;> simp

theorem forward_wordTurn : wordTurn.Forward LoopTurn.least := by
  intro text
  refine .get <| .bind (.refl text) (forward_gapText text) fun run middle here => ?_
  refine .bind here (forward_isIdentifierNext middle) fun found middle here => .ite (fun _ => ?_) fun _ => ?_
  · exact .bind here (forward_identifier middle) fun word rest atRest => .pure atRest
  · exact .set <| .pure (.refl text)

/-- Where no identifier follows, the gap is left. -/
theorem eq_of_wordTurn_done
    {last : Unit}
    (read : wordTurn text = .ok (.done last, rest)) :
    rest = text := by
  unfold wordTurn at read
  simp only [bind_eq_ok, get_eq_ok] at read
  obtain ⟨_, _, ⟨rfl, rfl⟩, run, middle, readRun, found, _, looked, read⟩ := read
  cases found with
  | true =>
      obtain ⟨_, _, _, again⟩ := bind_eq_ok.1 read
      cases (pure_eq_ok.1 again).1
  | false => exact eq_of_set read

theorem forward_words : words.Forward fun _ => 1 := by
  intro text
  refine .bind (.refl text) (forward_identifier text) fun first middle here => ?_
  refine .get ?_
  rw [moreWords_eq_collect]
  have loop := collect_advances (forward_wordTurn.agreeBelow _) (Nat.lt_succ_self middle.length)
    (Nat.lt_succ_self _) (Nat.lt_succ_self _)
  exact .bind here (loop.map Prod.fst) fun words rest atRest => .pure atRest

/-! ## Delimited lists -/

section Steps

variable {element element' expression expression' : Space -> Parser Tree}

namespace Parser

/-- One more element of a list, the last one with the closing delimiter. -/
def listTurn
    (close : Text)
    (element : Space -> Parser Tree) : Parser (LoopTurn (RightPadded Tree) (RightPadded Tree)) := do
  let leading <- gap
  let first <- element leading
  let after <- gap
  if <- accept [','] then
    let saved <- get
    let suffix <- gap
    if <- accept close then
      return .done ⟨first, after, trailingCommaMarkers suffix⟩
    else
      set saved
      return .again ⟨first, after, .empty⟩
  else if <- accept close then
    return .done ⟨first, after, .empty⟩
  else
    fail (.expected ("',' or '".toList ++ close ++ ['\'']))

end Parser

theorem listElements_eq_collect
    (close : Text)
    (element : Space -> Parser Tree)
    (bound : Nat) :
    listElements close element bound =
      (fun (padded, last) => padded ++ [last]) <$> collect (listTurn close element) bound := by
  induction bound with
  | zero => rfl
  | succ bound ih =>
      rw [listElements, collect, ih]
      generalize collect (listTurn close element) bound = others
      simp only [listTurn, map_bind, bind_assoc]
      refine bind_congr fun leading => bind_congr fun first => bind_congr fun after => bind_congr fun isComma => ?_
      split
      · simp only [bind_assoc]
        refine bind_congr fun saved => bind_congr fun suffix => bind_congr fun isClosed => ?_
        split
        · simp only [pure_bind, map_pure, List.nil_append]
        · simp only [bind_assoc, pure_bind, map_bind, map_pure, List.cons_append, bind_map_left]
      · simp only [bind_assoc]
        refine bind_congr fun isClosed => ?_
        split
        · simp only [pure_bind, map_pure, List.nil_append]
        · rfl

theorem listTurn_agrees
    (agree : AgreeOnTrees limit element element')
    (close : Text) :
    AgreeBelow limit LoopTurn.least (listTurn close element) (listTurn close element') := by
  intro text short
  refine .bind (.refl text) (forward_gap text) fun leading atElement here => ?_
  refine .bind here (agree leading atElement (by have := here.length_le; omega)) fun first behind here => ?_
  refine .bind here (forward_gap behind) fun after atSign here => ?_
  refine .bind here (forward_accept [','] atSign) fun isComma left here => .ite (fun _ => ?_) fun _ => ?_
  · refine .get <| .bind here (forward_gap left) fun suffix atClose atSuffix => ?_
    refine .bind atSuffix (forward_accept close atClose) fun isClosed rest atRest => .ite (fun _ => ?_) fun _ => ?_
    · exact .pure (atRest.mono (Nat.zero_le _))
    · exact .set <| .pure (here.mono (show 1 ≤ _ by omega))
  · refine .bind here (forward_accept close left) fun isClosed rest atRest => .ite (fun _ => ?_) fun _ => ?_
    · exact .pure (atRest.mono (Nat.zero_le _))
    · exact .fail atRest nofun

/-- A list goes on right behind a comma. -/
theorem listTurn_again
    {close : Text}
    {padded : RightPadded Tree}
    (forward : forall leading, (element leading).Forward fun _ => 1)
    (read : listTurn close element text = .ok (.again padded, rest)) :
    text.Passes 1 (',' :: rest) := by
  unfold listTurn at read
  simp only [bind_eq_ok] at read
  obtain ⟨leading, atElement, readLeading, first, behind, readFirst, after, atSign, readAfter, isComma, left, found,
    read⟩ := read
  have here : text.Passes 1 atSign :=
    ((forward_gap.passes readLeading).trans ((forward leading).passes readFirst)).trans (forward_gap.passes readAfter)
  rcases accept_eq_ok.1 found with ⟨rfl, rfl⟩ | ⟨rfl, -, rfl⟩
  · simp only [if_true, bind_eq_ok, get_eq_ok] at read
    obtain ⟨_, _, ⟨rfl, rfl⟩, suffix, _, -, isClosed, _, -, read⟩ := read
    cases isClosed with
    | true => cases (pure_eq_ok.1 read).1
    | false =>
        obtain rfl := eq_of_set read
        exact here
  · simp only [Bool.false_eq_true, if_false, bind_eq_ok] at read
    obtain ⟨isClosed, _, -, read⟩ := read
    cases isClosed with
    | true => cases (pure_eq_ok.1 read).1
    | false => cases fail_eq_ok.1 read

/-- Elements are read from right behind the opening delimiter, but for the gap of an empty list. -/
theorem container_cases
    {before : Space}
    {delimiters : Text × Text}
    {list : Container Tree}
    (read : container element before delimiters text = .ok (list, rest)) :
    ∃ start, text = delimiters.1 ++ start ∧
      ((∃ space, gap start = .ok (space, delimiters.2 ++ rest)) ∨
        listElements delimiters.2 element (start.length + 1) start = .ok (list.padded, rest)) := by
  unfold container at read
  simp only [bind_eq_ok, get_eq_ok] at read
  obtain ⟨_, start, opened, _, _, ⟨rfl, rfl⟩, inner, atClose, readInner, isClosed, _, found, read⟩ := read
  refine ⟨start, expect_eq_ok.1 opened, ?_⟩
  rcases accept_eq_ok.1 found with ⟨rfl, rfl⟩ | ⟨rfl, -, rfl⟩
  · obtain ⟨-, rfl⟩ := pure_eq_ok.1 read
    exact .inl ⟨inner, readInner⟩
  · obtain ⟨padded, readElements, rfl⟩ := eq_ok_of_set read
    exact .inr readElements

/-- Elements stand behind an opening delimiter. -/
theorem container_agrees
    (agree : AgreeOnTrees limit element element')
    (before : Space)
    {delimiters : Text × Text}
    (opens : 0 < delimiters.1.length) :
    AgreeBelow (limit + 1) (fun _ => 1) (container element before delimiters)
      (container element' before delimiters) := by
  intro text short
  refine .bind (.refl text) (forward_expect delimiters.1 text) fun _ start here => ?_
  have shorter := here.length_le
  refine .get <| .bind here (forward_gap start) fun inner atClose atInner => ?_
  refine .bind atInner (forward_accept delimiters.2 atClose) fun isClosed rest atRest => .ite (fun _ => ?_) fun _ => ?_
  · exact .pure (atRest.mono (show 1 ≤ _ by omega))
  · rw [listElements_eq_collect, listElements_eq_collect]
    have loop := collect_advances (listTurn_agrees agree delimiters.2) (by omega : start.length < limit)
      (Nat.lt_succ_self _) (Nat.lt_succ_self _)
    exact .set <| .bind here (loop.map _) fun padded rest atRest => .pure (atRest.mono (show 1 ≤ _ by omega))

/-! ## Chains -/

theorem parentheses_agrees (agree : AgreeOnTrees limit expression expression') :
    AgreeOnTrees (limit + 1) (parentheses expression) (parentheses expression') := by
  intro leading text short
  refine .bind (.refl text) (forward_expect ['('] text) fun _ start here => ?_
  refine .bind here (forward_gap start) fun innerLeading atInner here => ?_
  have shorter : atInner.length + 1 ≤ text.length := here.length_le
  refine .bind here (agree innerLeading atInner (by omega)) fun inner behind here => ?_
  refine .bind here (forward_gap behind) fun after atSign here => ?_
  exact .bind here (forward_expect [')'] atSign) fun _ rest atRest => .pure (atRest.mono (Nat.le_add_left ..))

theorem arguments?_agrees (agree : AgreeOnTrees limit expression expression') :
    AgreeBelow (limit + 1) (fun _ => 0) (arguments? expression) (arguments? expression') := by
  intro text short
  refine .bind (.refl text) (forward_isNextAfterGap ['('] text) fun found start here => .ite (fun _ => ?_) fun _ => ?_
  · refine .bind here (forward_gap start) fun before atList here => ?_
    have shorter : atList.length + 0 ≤ text.length := here.length_le
    refine .bind here (container_agrees agree before (by decide) atList (by omega)) fun list rest atRest => ?_
    exact .pure (atRest.mono (Nat.zero_le _))
  · exact .pure here

theorem word_agrees (agree : AgreeOnTrees limit expression expression') :
    AgreeOnTrees (limit + 1) (word expression) (word expression') := by
  intro leading text short
  refine .bind (.refl text) (forward_isKeywordNext _ text) fun isTrue start here => ?_
  refine .bind here (forward_isKeywordNext _ start) fun isFalse start here => ?_
  refine .bind here (forward_isKeywordNext _ start) fun isNull start here => ?_
  refine .bind here (forward_identifier start) fun name behind here => .ite (fun _ => .pure here) fun _ => ?_
  have shorter : behind.length + 1 ≤ text.length := here.length_le
  refine .bind here (arguments?_agrees agree behind (by omega)) fun arguments rest atRest => ?_
  cases arguments <;> exact .pure atRest

theorem primary_agrees (agree : AgreeOnTrees limit expression expression') :
    AgreeOnTrees (limit + 1) (primary expression) (primary expression') := by
  intro leading text short
  refine .get ?_
  cases text with
  | nil => exact .fail (.refl []) nofun
  | cons first more =>
      have behindFirst : Text.Passes (first :: more) 1 more := Text.passes_append [first] more
      refine .ite (fun _ => parentheses_agrees agree leading _ short) fun _ => .ite (fun _ => ?_) fun _ => ?_
      · refine .bind (.refl _) (container_agrees agree .empty (by decide) _ short) fun elements rest atRest => ?_
        exact .pure atRest
      · refine .ite (fun _ => ?_) fun _ => .ite (fun _ => ?_) fun _ => .ite (fun _ => ?_) fun _ => ?_
        · cases found : splitQuoted? first false more with
          | none => exact .fail (.refl _) nofun
          | some parts =>
              obtain ⟨body, after⟩ := parts
              have whole := (splitQuoted?_eq_some found).1
              have behindBody := behindFirst.trans (whole ▸ Text.passes_append body after)
              exact .set <| .pure (behindBody.mono (Nat.le_add_right ..))
        · exact .set <| .bind behindFirst (forward_takeWhile isNumberPart more) fun body rest atRest => .pure atRest
        · exact word_agrees agree leading _ short
        · exact .fail (.refl _) nofun

namespace Parser

/-- One more field access or call that is chained onto an expression, if there is one. -/
def postfixTurn
    (expression : Space -> Parser Tree)
    (tree : Tree) : Parser (LoopTurn Tree Tree) := do
  let saved <- get
  let beforeDot <- gap
  if <- accept ['.'] then
    let nameLeading <- gap
    let name := Tree.spaced nameLeading (.identifier (<- identifier) none)
    match <- arguments? expression with
    | some arguments =>
        return .again <| tree.leadingFrom fun receiver =>
          .call (some ⟨receiver, beforeDot, .empty⟩) name arguments none
    | none => return .again <| tree.leadingFrom fun target => .fieldAccess target ⟨beforeDot, name, .empty⟩ none
  else
    set saved
    return .done tree

end Parser

theorem postfixes_eq_iterate
    (expression : Space -> Parser Tree)
    (bound : Nat)
    (tree : Tree) :
    postfixes expression bound tree = iterate (postfixTurn expression) bound tree := by
  induction bound generalizing tree with
  | zero => rfl
  | succ bound ih =>
      rw [postfixes, iterate]
      simp only [ih]
      generalize iterate (postfixTurn expression) bound = others
      simp only [postfixTurn, bind_assoc]
      refine bind_congr fun saved => bind_congr fun beforeDot => bind_congr fun isDot => ?_
      split
      · simp only [bind_assoc]
        refine bind_congr fun nameLeading => bind_congr fun name => bind_congr fun arguments => ?_
        cases arguments <;> simp only [pure_bind]
      · simp only [bind_assoc, pure_bind]

/-- Where no dot follows, the gap is left. -/
theorem postfixTurn_done
    {tree result : Tree}
    (read : postfixTurn expression tree text = .ok (.done result, rest)) :
    rest = text ∧ ∃ space after, gap text = .ok (space, after) := by
  unfold postfixTurn at read
  simp only [bind_eq_ok, get_eq_ok] at read
  obtain ⟨_, _, ⟨rfl, rfl⟩, space, after, readGap, found, _, looked, read⟩ := read
  refine ⟨?_, space, after, readGap⟩
  cases found with
  | true =>
      simp only [if_true, bind_eq_ok] at read
      obtain ⟨_, _, _, _, _, _, arguments, _, _, again⟩ := read
      cases arguments <;> cases (pure_eq_ok.1 again).1
  | false => exact eq_of_set read

theorem postfixTurn_agrees
    (agree : AgreeOnTrees limit expression expression')
    (tree : Tree) :
    AgreeBelow (limit + 1) LoopTurn.least (postfixTurn expression tree) (postfixTurn expression' tree) := by
  intro text short
  refine .get <| .bind (.refl text) (forward_gap text) fun beforeDot atDot here => ?_
  refine .bind here (forward_accept ['.'] atDot) fun isDot behind here => .ite (fun dot => ?_) fun _ => ?_
  · subst dot
    refine .bind here (forward_gap behind) fun nameLeading atName here => ?_
    refine .bind here (forward_identifier atName) fun name behind here => ?_
    have shorter : behind.length + 2 ≤ text.length := here.length_le
    refine .bind here (arguments?_agrees agree behind (by omega)) fun arguments rest atRest => ?_
    cases arguments <;> exact .pure (atRest.mono (Nat.le_add_left ..))
  · exact .set <| .pure (.refl text)

theorem chained_agrees (agree : AgreeOnTrees limit expression expression') :
    AgreeOnTrees (limit + 1) (chained expression) (chained expression') := by
  intro leading text short
  refine .bind (.refl text) (primary_agrees agree leading text short) fun first middle here => ?_
  have shorter : middle.length + 1 ≤ text.length := here.length_le
  refine .get ?_
  rw [postfixes_eq_iterate, postfixes_eq_iterate]
  have loop := iterate_advances (postfixTurn_agrees agree) first (by omega : middle.length < limit + 1)
    (Nat.lt_succ_self _) (Nat.lt_succ_self _)
  exact .after here loop fun _ => Nat.le_refl _

/-! ## Expressions -/

namespace Parser

/-- One more operator of at least a precedence with its right operand, if there is one. -/
def operationTurn
    (operand : Nat -> Space -> Parser Tree)
    (precedence : Nat)
    (left : Tree) : Parser (LoopTurn Tree Tree) := do
  let saved <- get
  let before <- gap
  match operatorNext? (<- get) with
  | some (operator, rest) =>
      if precedence ≤ operator.precedence then
        set rest
        let rightLeading <- gap
        let right <- operand (operator.precedence + 1) rightLeading
        return .again <| left.leadingFrom fun left => .binary left ⟨before, operator, .empty⟩ right none
      else
        set saved
        return .done left
  | none =>
      set saved
      return .done left

end Parser

theorem operations_eq_iterate
    (operand : Nat -> Space -> Parser Tree)
    (precedence bound : Nat)
    (left : Tree) :
    operations operand precedence bound left = iterate (operationTurn operand precedence) bound left := by
  induction bound generalizing left with
  | zero => rfl
  | succ bound ih =>
      rw [operations, iterate]
      simp only [ih]
      generalize iterate (operationTurn operand precedence) bound = others
      simp only [operationTurn, bind_assoc]
      refine bind_congr fun saved => bind_congr fun before => bind_congr fun atOperator => ?_
      rcases operatorNext? atOperator with _ | ⟨operator, rest⟩
      · simp only [bind_assoc, pure_bind]
      · dsimp only
        split <;> simp only [bind_assoc, pure_bind]

/-- Where no operator that binds tightly enough follows, the gap is left. -/
theorem eq_of_operationTurn_done
    {operand : Nat -> Space -> Parser Tree}
    {precedence : Nat}
    {left result : Tree}
    (read : operationTurn operand precedence left text = .ok (.done result, rest)) :
    rest = text := by
  unfold operationTurn at read
  simp only [bind_eq_ok, get_eq_ok] at read
  obtain ⟨_, _, ⟨rfl, rfl⟩, before, atOperator, -, _, _, ⟨rfl, rfl⟩, read⟩ := read
  cases found : operatorNext? atOperator with
  | none =>
      rw [found] at read
      exact eq_of_set read
  | some next =>
      rw [found] at read
      dsimp only at read
      split at read
      · simp only [bind_eq_ok] at read
        obtain ⟨_, _, _, _, _, _, _, _, _, again⟩ := read
        cases (pure_eq_ok.1 again).1
      · exact eq_of_set read

/-- Right operands bind more tightly than the operators that are read. -/
theorem operations_congr
    {operand operand' : Nat -> Space -> Parser Tree}
    {precedence : Nat}
    (same : forall next, precedence < next -> operand next = operand' next)
    (bound : Nat)
    (left : Tree) :
    operations operand precedence bound left = operations operand' precedence bound left := by
  induction bound generalizing left with
  | zero => rfl
  | succ bound ih =>
      simp only [operations, ih]
      refine bind_congr fun saved => bind_congr fun before => bind_congr fun atOperator => ?_
      rcases operatorNext? atOperator with _ | ⟨operator, rest⟩
      · rfl
      · dsimp only
        split
        · next enough => rw [same _ (Nat.lt_succ_of_le enough)]
        · rfl

/-- Behind what is chained a gap can be read, and no operator binds more tightly than all of them. -/
theorem binary_of_tight
    {precedence : Nat}
    (tight : operatorLevels ≤ precedence)
    (levels : Nat)
    (leading : Space) :
    binary expression levels precedence leading = chained expression leading := by
  cases levels with
  | zero => rfl
  | succ levels =>
      funext text
      cases outcome : chained expression leading text with
      | error fault => exact bind_of_error outcome
      | ok step =>
          obtain ⟨first, middle⟩ := step
          obtain ⟨tree, start, -, read⟩ := bind_eq_ok.1 outcome
          rw [bind_get, postfixes_eq_iterate] at read
          obtain ⟨last, atLast, turn⟩ := exists_turn_of_iterate read
          obtain ⟨rfl, space, after, readGap⟩ := postfixTurn_done turn
          rw [binary, bind_of_ok outcome, bind_get, operations, bind_get, bind_of_ok readGap, bind_get]
          cases found : operatorNext? after with
          | none => rfl
          | some next =>
              have loose := precedence_lt_operatorLevels next.1
              exact congrFun (if_neg (by omega)) after

/-- Levels above the tightest operators do not matter. -/
theorem binary_of_enough
    {levels others precedence : Nat}
    (enough : operatorLevels ≤ levels + precedence)
    (enoughOthers : operatorLevels ≤ others + precedence) :
    binary expression levels precedence = binary expression others precedence := by
  funext leading
  induction levels generalizing others precedence leading with
  | zero => rw [binary_of_tight (by omega), binary_of_tight (by omega)]
  | succ levels ih =>
      cases others with
      | zero => rw [binary_of_tight (by omega), binary_of_tight (by omega)]
      | succ others =>
          refine bind_congr fun first => bind_congr fun behind => operations_congr (fun next tighter => ?_) _ _
          exact funext fun leading => ih (by omega) (by omega) leading

/-- An operation is a chain and the operations in its operands, without levels. -/
theorem binary_eq_step
    (expression : Space -> Parser Tree)
    (precedence : Nat)
    (leading : Space) :
    binary expression operatorLevels precedence leading =
      (do
        let first <- chained expression leading
        operations (binary expression operatorLevels) precedence ((<- get).length + 1) first) :=
  congrFun (binary_of_enough (by omega) (by omega : operatorLevels ≤ operatorLevels + 1 + precedence)) leading

theorem operationTurn_agrees
    {operand operand' : Nat -> Space -> Parser Tree}
    (agree : forall precedence, AgreeOnTrees limit (operand precedence) (operand' precedence))
    (precedence : Nat)
    (left : Tree) :
    AgreeBelow (limit + 1) LoopTurn.least (operationTurn operand precedence left)
      (operationTurn operand' precedence left) := by
  intro text short
  refine .get <| .bind (.refl text) (forward_gap text) fun before atOperator here => .get ?_
  cases found : operatorNext? atOperator with
  | none => exact .set <| .pure (.refl text)
  | some next =>
      obtain ⟨operator, tail⟩ := next
      refine .ite (fun _ => ?_) fun _ => .set <| .pure (.refl text)
      have sign : atOperator.Passes 1 tail :=
        operatorNext?_eq_some found ▸
          (Text.passes_append ..).mono (List.length_pos_iff.2 (symbol_ne_nil operator))
      refine .set <| .bind (here.trans sign) (forward_gap tail) fun rightLeading atRight here => ?_
      have shorter : atRight.length + 1 ≤ text.length := here.length_le
      refine .bind here (agree _ rightLeading atRight (by omega)) fun right rest atRest => ?_
      exact .pure (atRest.mono (Nat.le_add_left ..))

theorem binary_agrees
    (agree : AgreeOnTrees limit expression expression')
    (levels precedence : Nat) :
    AgreeOnTrees (limit + 1) (binary expression levels precedence) (binary expression' levels precedence) := by
  induction levels generalizing precedence with
  | zero => exact chained_agrees agree
  | succ levels ih =>
      intro leading text short
      refine .bind (.refl text) (chained_agrees agree leading text short) fun first middle here => .get ?_
      have shorter : middle.length + 1 ≤ text.length := here.length_le
      rw [operations_eq_iterate, operations_eq_iterate]
      have operands (next : Nat) :
          AgreeOnTrees limit (binary expression levels next) (binary expression' levels next) :=
        (ih next).mono (Nat.le_succ limit)
      have loop := iterate_advances (operationTurn_agrees operands precedence) first
        (by omega : middle.length < limit + 1) (Nat.lt_succ_self _) (Nat.lt_succ_self _)
      exact .after here loop fun _ => Nat.le_refl _

/-- The value of an assignment stands behind its target. -/
theorem expressionStep_agrees (agree : AgreeOnTrees limit expression expression') :
    AgreeOnTrees (limit + 1) (expressionStep expression) (expressionStep expression') := by
  intro leading text short
  refine .bind (.refl text) (binary_agrees agree _ 0 leading text short) fun target middle atTarget => ?_
  refine .get <| .bind atTarget (forward_gap middle) fun before atSign here => ?_
  refine .bind here (forward_isNext _ atSign) fun isEquality atSign here => ?_
  refine .bind here (forward_accept _ atSign) fun isSign behind here => .ite (fun _ => ?_) fun _ => ?_
  · refine .bind here (forward_gap behind) fun valueLeading atValue here => ?_
    have shorter := here.length_le
    refine .bind here (agree valueLeading atValue (by omega)) fun value rest atRest => ?_
    exact .pure (atRest.mono (Nat.le_add_left ..))
  · exact .set <| .pure atTarget

/-- The number of nestings does not matter where there are as many as characters. -/
theorem expressionWithin_agrees
    {nestings others : Nat}
    (enough : limit ≤ nestings)
    (enoughOthers : limit ≤ others) :
    AgreeOnTrees limit (expressionWithin nestings) (expressionWithin others) := by
  induction limit generalizing nestings others with
  | zero => exact fun _ _ short => absurd short (Nat.not_lt_zero _)
  | succ limit ih =>
      obtain ⟨nestings, rfl⟩ := Nat.exists_eq_succ_of_ne_zero (by omega : nestings ≠ 0)
      obtain ⟨others, rfl⟩ := Nat.exists_eq_succ_of_ne_zero (by omega : others ≠ 0)
      exact expressionStep_agrees (ih (by omega) (by omega))

/-- An expression is read with any number of nestings that is large enough. -/
theorem expression_agrees
    {nestings : Nat}
    (enough : limit ≤ nestings) :
    AgreeOnTrees limit (expressionWithin nestings) Parser.expression := by
  intro leading text short
  have agree : AgreeOnTrees (text.length + 1) (expressionWithin nestings) (expressionWithin (text.length + 1)) :=
    expressionWithin_agrees (by omega) (Nat.le_refl _)
  exact agree leading text (Nat.lt_succ_self _)

theorem forward_expression (leading : Space) : (Parser.expression leading).Forward fun _ => 1 := fun text =>
  expressionWithin_agrees (Nat.le_refl _) (Nat.le_refl _) leading text (Nat.lt_succ_self text.length)

/-- An expression is a step over expressions, without any bound. -/
theorem expression_eq_step : Parser.expression = expressionStep Parser.expression := by
  funext leading text
  exact (expressionStep_agrees (expression_agrees (Nat.le_refl text.length)) leading text (Nat.lt_succ_self _)).eq

/-- An expression that is no assignment ends where its target does. -/
theorem expression_cases
    {leading : Space}
    {tree : Tree}
    (read : Parser.expression leading text = .ok (tree, rest)) :
    ∃ target middle, binary Parser.expression operatorLevels 0 leading text = .ok (target, middle) ∧
      (tree = target ∧ rest = middle ∨ middle.Passes 1 rest) := by
  rw [expression_eq_step] at read
  unfold expressionStep at read
  simp only [bind_eq_ok, get_eq_ok] at read
  obtain ⟨target, middle, readTarget, _, _, ⟨rfl, rfl⟩, before, atSign, readBefore, isEquality, _, looked, isSign,
    behind, found, read⟩ := read
  refine ⟨target, middle, readTarget, ?_⟩
  obtain rfl := (isNext_eq_ok.1 looked).2
  split at read
  · simp only [bind_eq_ok] at read
    obtain ⟨valueLeading, atValue, readLeading, value, _, readValue, given⟩ := read
    obtain ⟨-, rfl⟩ := pure_eq_ok.1 given
    have toSign := (forward_gap.passes readBefore).trans ((forward_accept _).passes found)
    have toValue := toSign.trans (forward_gap.passes readLeading)
    exact .inr ((toValue.trans ((forward_expression valueLeading).passes readValue)).mono (Nat.le_add_left ..))
  · obtain ⟨_, _, back, given⟩ := bind_eq_ok.1 read
    obtain rfl := set_eq_ok.1 back
    obtain ⟨rfl, rfl⟩ := pure_eq_ok.1 given
    exact .inl ⟨rfl, rfl⟩

/-! ## Statements -/

/-- Two parsers of statements pass some character, alike on texts with fewer characters than the bound. -/
def AgreeOnStatements
    (limit : Nat)
    (statement other : Parser (RightPadded Tree)) : Prop :=
  AgreeBelow limit (fun _ => 1) statement other

variable {statement statement' : Parser (RightPadded Tree)}

theorem forward_parameter (leading : Space) : (parameter leading).Forward fun _ => 1 := by
  intro text
  refine .bind (.refl text) (forward_words text) fun words rest atRest => ?_
  obtain ⟨first, _ | _⟩ := words <;> exact .pure atRest

namespace Parser

/-- One more statement of a block, or its closing brace. -/
def blockTurn (statement : Parser (RightPadded Tree)) : Parser (LoopTurn (RightPadded Tree) Space) := do
  let saved <- get
  let closing <- gap
  if <- accept ['\x7d'] then
    return .done closing
  else if (<- get) = [] then
    fail (.expected ['\'', '\x7d', '\''])
  else
    set saved
    return .again (<- statement)

/-- One more statement of a unit, or its end. -/
def unitTurn : Parser (LoopTurn (RightPadded Tree) Space) := do
  let saved <- get
  let eof <- gap
  if (<- get) = [] then
    return .done eof
  else
    set saved
    return .again (<- Parser.statement)

end Parser

theorem blockStatements_eq_collect
    (statement : Parser (RightPadded Tree))
    (bound : Nat) :
    blockStatements statement bound = collect (blockTurn statement) bound := by
  induction bound with
  | zero => rfl
  | succ bound ih =>
      rw [blockStatements, collect, ih]
      generalize collect (blockTurn statement) bound = others
      simp only [blockTurn, bind_assoc]
      refine bind_congr fun saved => bind_congr fun closing => bind_congr fun isClosed => ?_
      split
      · simp only [pure_bind]
      · simp only [bind_assoc]
        refine bind_congr fun left => ?_
        split
        · rfl
        · simp only [bind_assoc, pure_bind]

theorem unitStatements_eq_collect (bound : Nat) : unitStatements bound = collect unitTurn bound := by
  induction bound with
  | zero => rfl
  | succ bound ih =>
      rw [unitStatements, collect, ih]
      generalize collect unitTurn bound = others
      simp only [unitTurn, bind_assoc]
      refine bind_congr fun saved => bind_congr fun eof => bind_congr fun left => ?_
      split
      · simp only [pure_bind]
      · simp only [bind_assoc, pure_bind]

theorem blockTurn_agrees (agree : AgreeOnStatements limit statement statement') :
    AgreeBelow limit LoopTurn.least (blockTurn statement) (blockTurn statement') := by
  intro text short
  refine .get <| .bind (.refl text) (forward_gap text) fun closing atSign here => ?_
  refine .bind here (forward_accept _ atSign) fun isClosed left here => .ite (fun _ => ?_) fun _ => ?_
  · exact .pure (here.mono (Nat.zero_le _))
  refine .get <| .ite (fun _ => .fail here nofun) fun _ => .set ?_
  exact .bind (.refl text) (agree text short) fun first rest atRest => .pure atRest

/-- A statement of a block is read from where the turn began. -/
theorem blockTurn_again
    {first : RightPadded Tree}
    (read : blockTurn statement text = .ok (.again first, rest)) :
    statement text = .ok (first, rest) := by
  unfold blockTurn at read
  simp only [bind_eq_ok, get_eq_ok] at read
  obtain ⟨_, _, ⟨rfl, rfl⟩, closing, left, -, isClosed, behind, -, read⟩ := read
  cases isClosed with
  | true => cases (pure_eq_ok.1 read).1
  | false =>
      simp only [Bool.false_eq_true, if_false, bind_eq_ok, get_eq_ok] at read
      obtain ⟨_, _, ⟨rfl, rfl⟩, read⟩ := read
      split at read
      · cases fail_eq_ok.1 read
      · obtain ⟨value, readFirst, same⟩ := eq_ok_of_set read
        cases same
        exact readFirst

theorem block_agrees (agree : AgreeOnStatements limit statement statement') :
    AgreeOnTrees (limit + 1) (block statement) (block statement') := by
  intro leading text short
  refine .bind (.refl text) (forward_expect _ text) fun _ start here => .get ?_
  have shorter : start.length + 1 ≤ text.length := here.length_le
  rw [blockStatements_eq_collect, blockStatements_eq_collect]
  have loop := collect_advances (blockTurn_agrees agree) (by omega : start.length < limit) (Nat.lt_succ_self _)
    (Nat.lt_succ_self _)
  exact .bind here loop fun collected rest atRest => .pure atRest

theorem alternative_agrees (agree : AgreeOnStatements limit statement statement') :
    AgreeBelow (limit + 1) (fun _ => 0) (alternative statement) (alternative statement') := by
  intro text short
  refine .get <| .bind (.refl text) (forward_gap text) fun leading atWord here => ?_
  refine .bind here (forward_isKeywordNext _ atWord) fun isElse atWord here => .ite (fun _ => ?_) fun _ => ?_
  · refine .bind here (forward_expect _ atWord) fun _ behind here => ?_
    have shorter : behind.length + 4 ≤ text.length := here.length_le
    refine .bind here (agree behind (by omega)) fun body rest atRest => .pure (atRest.mono (Nat.zero_le _))
  · exact .set <| .pure (.refl text)

/-- Where no alternative follows, the gap is left. -/
theorem eq_of_alternative_none (read : alternative statement text = .ok (none, rest)) : rest = text := by
  unfold alternative at read
  simp only [bind_eq_ok, get_eq_ok] at read
  obtain ⟨_, _, ⟨rfl, rfl⟩, leading, _, -, found, _, -, read⟩ := read
  cases found with
  | true =>
      simp only [if_true, bind_eq_ok] at read
      obtain ⟨_, _, _, _, _, _, given⟩ := read
      cases (pure_eq_ok.1 given).1
  | false => exact eq_of_set read

theorem conditional_agrees (agree : AgreeOnStatements limit statement statement') :
    AgreeOnTrees (limit + 1) (conditional statement) (conditional statement') := by
  intro leading text short
  refine .bind (.refl text) (forward_expect _ text) fun _ behind here => ?_
  refine .bind here (forward_gap behind) fun conditionLeading atCondition here => ?_
  have condition := parentheses_agrees (fun leading => (forward_expression leading).agreeBelow atCondition.length)
    conditionLeading atCondition (Nat.lt_succ_self _)
  refine .bind here condition fun condition behind here => ?_
  have shorter : behind.length + 3 ≤ text.length := here.length_le
  refine .bind here (agree behind (by omega)) fun consequence behind here => ?_
  have shorter : behind.length + 4 ≤ text.length := here.length_le
  refine .bind here (alternative_agrees agree behind (by omega)) fun alternative rest atRest => ?_
  exact .pure (atRest.mono (show 1 ≤ 4 by omega))

theorem forward_returns (leading : Space) : (returns leading).Forward fun _ => 1 := by
  intro text
  refine .bind (.refl text) (forward_expect _ text) fun _ behind here => ?_
  refine .bind here (forward_isNextAfterGap _ behind) fun isPlain behind here => .ite (fun _ => ?_) fun _ => ?_
  · exact .pure (here.mono (show 1 ≤ 6 by omega))
  · refine .bind here (forward_gap behind) fun valueLeading atValue here => ?_
    refine .bind here (forward_expression valueLeading atValue) fun value rest atRest => ?_
    exact .pure (atRest.mono (show 1 ≤ 7 by omega))

theorem body?_agrees (agree : AgreeOnStatements limit statement statement') :
    AgreeBelow (limit + 1) (fun _ => 0) (declaration?.body? statement) (declaration?.body? statement') := by
  intro text short
  refine .bind (.refl text) (forward_isNextAfterGap _ text) fun isBody start here => .ite (fun _ => ?_) fun _ => ?_
  · refine .bind here (forward_gap start) fun bodyLeading atBody here => ?_
    have shorter : atBody.length + 0 ≤ text.length := here.length_le
    refine .bind here (block_agrees agree bodyLeading atBody (by omega)) fun body rest atRest => ?_
    exact .pure (atRest.mono (Nat.zero_le _))
  · exact .pure here

/-- Reading a declaration, or nothing. -/
def declaredLength : Option Tree -> Nat
  | some _ => 1
  | none => 0

theorem declaration?_agrees
    (agree : AgreeOnStatements limit statement statement')
    (leading : Space) :
    AgreeBelow (limit + 1) declaredLength (declaration? statement leading) (declaration? statement' leading) := by
  intro text short
  refine .get <| .bind (.refl text) (forward_isIdentifierNext text) fun starts start here => ?_
  refine .ite (fun _ => ?_) fun _ => ?_
  · refine .bind here (forward_words start) fun words behind here => ?_
    obtain ⟨first, more⟩ := words
    dsimp only
    rcases more.getLast? with _ | ⟨nameRun, name⟩
    · exact .set <| .pure (.refl text)
    · refine .bind here (forward_isNextAfterGap _ behind) fun isOpen behind here => .ite (fun _ => ?_) fun _ => ?_
      · refine .bind here (forward_gap behind) fun before atList here => ?_
        have list := container_agrees (fun leading => (forward_parameter leading).agreeBelow atList.length) before
          (by decide : 0 < (['('], [')']).1.length) atList (Nat.lt_succ_self _)
        refine .bind here list fun parameters behind here => ?_
        have shorter : behind.length + 2 ≤ text.length := here.length_le
        refine .bind here (body?_agrees agree behind (by omega)) fun body rest atRest => ?_
        exact .pure (atRest.mono (show 1 ≤ 2 by omega))
      · exact .set <| .pure (.refl text)
  · exact .pure here

theorem forward_terminated (tree : Tree) : (terminated tree).Forward fun _ => 1 := by
  intro text
  refine .bind (.refl text) (forward_gap text) fun after atSign here => ?_
  exact .bind here (forward_expect _ atSign) fun _ rest atRest => .pure atRest

theorem declarationOrExpression_agrees
    (agree : AgreeOnStatements limit statement statement')
    (leading : Space) :
    AgreeBelow (limit + 1) (fun _ => 1) (declarationOrExpression statement leading)
      (declarationOrExpression statement' leading) := by
  intro text short
  refine .bind (.refl text) (declaration?_agrees agree leading text short) fun declaration behind here => ?_
  cases declaration with
  | some tree =>
      refine .ite (fun _ => .pure here) fun _ => ?_
      exact .after here (forward_terminated tree behind) fun _ => Nat.le_add_left ..
  | none =>
      refine .bind here (forward_isKeywordNext _ behind) fun isElse behind here => .ite (fun _ => ?_) fun _ => ?_
      · exact .fail here nofun
      · refine .bind here (forward_expression leading behind) fun tree behind here => ?_
        exact .after here (forward_terminated tree behind) fun _ => Nat.le_add_left ..

/-- The statements inside a statement stand behind a brace or a keyword of it. -/
theorem statementStep_agrees (agree : AgreeOnStatements limit statement statement') :
    AgreeOnStatements (limit + 1) (statementStep statement) (statementStep statement') := by
  intro text short
  refine .bind (.refl text) (forward_gap text) fun leading start here => ?_
  refine .bind here (forward_isNext _ start) fun isBlock start here => ?_
  have shorter : start.length + 0 ≤ text.length := here.length_le
  refine .ite (fun _ => ?_) fun _ => ?_
  · exact .bind here (block_agrees agree leading start (by omega)) fun tree rest atRest => .pure atRest
  · refine .bind here (forward_isKeywordNext _ start) fun isConditional start here => ?_
    have shorter : start.length + 0 ≤ text.length := here.length_le
    refine .ite (fun _ => ?_) fun _ => ?_
    · exact .bind here (conditional_agrees agree leading start (by omega)) fun tree rest atRest => .pure atRest
    · refine .bind here (forward_accept _ start) fun isEmpty start here => .ite (fun empty => ?_) fun _ => ?_
      · subst empty
        exact .pure here
      · refine .bind here (forward_isKeywordNext _ start) fun isReturn start here => .ite (fun _ => ?_) fun _ => ?_
        · refine .bind here (forward_returns leading start) fun tree behind here => ?_
          exact .after here (forward_terminated tree behind) fun _ => Nat.le_add_left ..
        · have shorter := here.length_le
          exact .after here (declarationOrExpression_agrees agree leading start (by omega)) fun _ => Nat.le_add_left ..

theorem statementWithin_agrees
    {nestings others : Nat}
    (enough : limit ≤ nestings)
    (enoughOthers : limit ≤ others) :
    AgreeOnStatements limit (statementWithin nestings) (statementWithin others) := by
  induction limit generalizing nestings others with
  | zero => exact fun _ short => absurd short (Nat.not_lt_zero _)
  | succ limit ih =>
      obtain ⟨nestings, rfl⟩ := Nat.exists_eq_succ_of_ne_zero (by omega : nestings ≠ 0)
      obtain ⟨others, rfl⟩ := Nat.exists_eq_succ_of_ne_zero (by omega : others ≠ 0)
      exact statementStep_agrees (ih (by omega) (by omega))

/-- A statement is read with any number of nestings that is large enough. -/
theorem statement_agrees
    {nestings : Nat}
    (enough : limit ≤ nestings) :
    AgreeOnStatements limit (statementWithin nestings) Parser.statement := by
  intro text short
  have agree : AgreeOnStatements (text.length + 1) (statementWithin nestings) (statementWithin (text.length + 1)) :=
    statementWithin_agrees (by omega) (Nat.le_refl _)
  exact agree text (Nat.lt_succ_self _)

theorem forward_statement : Parser.statement.Forward fun _ => 1 := fun text =>
  statementWithin_agrees (Nat.le_refl _) (Nat.le_refl _) text (Nat.lt_succ_self text.length)

/-- A statement is a step over statements, without any bound. -/
theorem statement_eq_step : Parser.statement = statementStep Parser.statement := by
  funext text
  exact (statementStep_agrees (statement_agrees (Nat.le_refl text.length)) text (Nat.lt_succ_self _)).eq

/-! ## Units -/

theorem forward_unitTurn : unitTurn.Forward LoopTurn.least := by
  intro text
  refine .get <| .bind (.refl text) (forward_gap text) fun eof left here => .get ?_
  refine .ite (fun _ => .pure here) fun _ => .set ?_
  exact .bind (.refl text) (forward_statement text) fun first rest atRest => .pure atRest

/-- A statement of a unit is read from where the turn began. -/
theorem unitTurn_again
    {first : RightPadded Tree}
    (read : unitTurn text = .ok (.again first, rest)) :
    Parser.statement text = .ok (first, rest) := by
  unfold unitTurn at read
  simp only [bind_eq_ok, get_eq_ok] at read
  obtain ⟨_, _, ⟨rfl, rfl⟩, eof, left, -, _, _, ⟨rfl, rfl⟩, read⟩ := read
  split at read
  · cases (pure_eq_ok.1 read).1
  · obtain ⟨value, readFirst, same⟩ := eq_ok_of_set read
    cases same
    exact readFirst

theorem forward_unit (path : Path) : (unit path).Forward fun _ => 0 := by
  intro text
  refine .get ?_
  rw [unitStatements_eq_collect]
  have loop := collect_advances (forward_unitTurn.agreeBelow _) (Nat.lt_succ_self text.length)
    (Nat.lt_succ_self _) (Nat.lt_succ_self _)
  exact .bind (.refl text) loop fun collected rest atRest => .pure atRest

end Steps

/-! ## Positions -/

/-- The parsers of the grammar keep to the positions of a source; the ones with a `1` pass some byte. -/
structure KeepsPositions (source : Text) : Prop where
  gaps : StaysIn source (fun _ => 0) gap
  looks : forall pattern, StaysIn source (fun _ => 0) (isNextAfterGap pattern)
  tokens : forall pattern, StaysIn source (fun _ => pattern.length) (expect pattern)
  identifiers : StaysIn source (fun _ => 1) identifier
  names : StaysIn source (fun _ => 1) words
  units : forall path, StaysIn source (fun _ => 0) (unit path)
  statements : StaysIn source (fun _ => 1) statement
  blocks : forall leading, StaysIn source (fun _ => 1) (block statement leading)
  conditionals : forall leading, StaysIn source (fun _ => 1) (conditional statement leading)
  alternatives : StaysIn source (fun _ => 0) (alternative statement)
  results : forall leading, StaysIn source (fun _ => 1) (returns leading)
  declarations : forall leading, StaysIn source declaredLength (declaration? statement leading)
  parameters : forall leading, StaysIn source (fun _ => 1) (parameter leading)
  parenthesised : forall leading, StaysIn source (fun _ => 1) (parentheses expression leading)
  lists : forall element, element ∈ [expression, parameter] -> forall before delimiters, 0 < delimiters.1.length ->
    StaysIn source (fun _ => 1) (container element before delimiters)
  expressions : forall leading, StaysIn source (fun _ => 1) (expression leading)
  operations : forall levels precedence leading,
    StaysIn source (fun _ => 1) (binary expression levels precedence leading)
  chains : forall leading, StaysIn source (fun _ => 1) (chained expression leading)
  primaries : forall leading, StaysIn source (fun _ => 1) (primary expression leading)

/--
What a parser has looked at in vain is given back: it stands where it began, or goes on from a position that it has come
to itself.
-/
structure RestoresPositions : Prop where
  looks : forall pattern, Restores (fun _ => True) (isNextAfterGap pattern)
  declarations : forall leading, Restores (· = none) (declaration? statement leading)
  alternatives : Restores (· = none) (alternative statement)
  words : Restores LoopTurn.IsDone wordTurn
  chains : forall tree, Restores LoopTurn.IsDone (postfixTurn expression tree)
  operations : forall levels precedence left,
    Restores LoopTurn.IsDone (operationTurn (binary expression levels) precedence left)
  units : forall {text first rest}, unitTurn text = .ok (.again first, rest) -> statement text = .ok (first, rest)
  blocks : forall {text first rest}, blockTurn statement text = .ok (.again first, rest) ->
    statement text = .ok (first, rest)
  /-- Behind the comma. -/
  lists : forall element, element ∈ [expression, parameter] -> forall {close text padded rest},
    listTurn close element text = .ok (.again padded, rest) -> text.Passes 1 (',' :: rest)
  /-- Behind the opening delimiter. -/
  containers : forall {element before delimiters text list rest},
    container element before delimiters text = .ok (list, rest) ->
      ∃ start, text = delimiters.1 ++ start ∧
        ((∃ space, gap start = .ok (space, delimiters.2 ++ rest)) ∨
          listElements delimiters.2 element (start.length + 1) start = .ok (list.padded, rest))
  /-- Behind the target of an assignment. -/
  targets : forall {leading text tree rest}, expression leading text = .ok (tree, rest) ->
    ∃ target middle, binary expression operatorLevels 0 leading text = .ok (target, middle) ∧
      (tree = target ∧ rest = middle ∨ middle.Passes 1 rest)

/-- Every loop ends, and the recursions are the ones of the grammar, without any bound. -/
structure LoopsEnd (source : Text) : Prop where
  units : Loops source unitTurn id unitStatements
  blocks : Loops source (blockTurn statement) id (blockStatements statement)
  words : Loops source wordTurn Prod.fst moreWords
  lists : forall element, element ∈ [expression, parameter] -> forall close,
    Loops source (listTurn close element) (fun (padded, last) => padded ++ [last]) (listElements close element)
  chains : LoopsFrom source (postfixTurn expression) (postfixes expression)
  operations : forall levels precedence,
    LoopsFrom source (operationTurn (binary expression levels) precedence)
      (Parser.operations (binary expression levels) precedence)
  statement_eq : statement = statementStep statement
  expression_eq : expression = expressionStep expression
  binary_eq : forall precedence leading, binary expression operatorLevels precedence leading =
    (do
      let first <- chained expression leading
      Parser.operations (binary expression operatorLevels) precedence ((<- get).length + 1) first)

theorem forward_of_isElement
    {element : Space -> Parser Tree}
    (isElement : element ∈ [expression, parameter])
    (leading : Space) :
    (element leading).Forward fun _ => 1 := by
  rcases List.mem_pair.1 isElement with rfl | rfl
  · exact forward_expression leading
  · exact forward_parameter leading

theorem forward_binary
    (levels precedence : Nat)
    (leading : Space) :
    (binary expression levels precedence leading).Forward fun _ => 1 :=
  .ofAgree fun limit => binary_agrees (.ofForward forward_expression limit) levels precedence leading

theorem keepsPositions (source : Text) : KeepsPositions source where
  gaps := forward_gap.staysIn source
  looks pattern := (forward_isNextAfterGap pattern).staysIn source
  tokens pattern := (forward_expect pattern).staysIn source
  identifiers := forward_identifier.staysIn source
  names := forward_words.staysIn source
  units path := (forward_unit path).staysIn source
  statements := forward_statement.staysIn source
  blocks leading :=
    (Forward.ofAgree fun limit => block_agrees (forward_statement.agreeBelow limit) leading).staysIn source
  conditionals leading :=
    (Forward.ofAgree fun limit => conditional_agrees (forward_statement.agreeBelow limit) leading).staysIn source
  alternatives :=
    (Forward.ofAgree fun limit => alternative_agrees (forward_statement.agreeBelow limit)).staysIn source
  results leading := (forward_returns leading).staysIn source
  declarations leading :=
    (Forward.ofAgree fun limit => declaration?_agrees (forward_statement.agreeBelow limit) leading).staysIn source
  parameters leading := (forward_parameter leading).staysIn source
  parenthesised leading :=
    (Forward.ofAgree fun limit => parentheses_agrees (.ofForward forward_expression limit) leading).staysIn source
  lists _ isElement before _ opens :=
    (Forward.ofAgree fun limit =>
      container_agrees (.ofForward (forward_of_isElement isElement) limit) before opens).staysIn source
  expressions leading := (forward_expression leading).staysIn source
  operations levels precedence leading := (forward_binary levels precedence leading).staysIn source
  chains leading :=
    (Forward.ofAgree fun limit => chained_agrees (.ofForward forward_expression limit) leading).staysIn source
  primaries leading :=
    (Forward.ofAgree fun limit => primary_agrees (.ofForward forward_expression limit) leading).staysIn source

theorem restoresPositions : RestoresPositions where
  looks pattern := fun read _ => (isNextAfterGap_eq_ok.1 read).1.symm
  declarations leading := fun read isNone => by
    subst isNone
    rcases declaration?_cases read with ⟨-, back, -⟩ | ⟨-, _, _, _, _, _, _, _, _, _, _, _, _, _, _, found⟩
    · exact back
    · cases found
  alternatives := fun read isNone => eq_of_alternative_none (isNone ▸ read)
  words := fun {_ turn _} read isDone => by
    cases turn with
    | again => cases isDone
    | done => exact eq_of_wordTurn_done read
  chains tree := fun {_ turn _} read isDone => by
    cases turn with
    | again => cases isDone
    | done => exact (postfixTurn_done read).1
  operations levels precedence left := fun {_ turn _} read isDone => by
    cases turn with
    | again => cases isDone
    | done => exact eq_of_operationTurn_done read
  units := unitTurn_again
  blocks := blockTurn_again
  lists element isElement := listTurn_again (forward_of_isElement isElement)
  containers := container_cases
  targets := expression_cases

theorem loopsEnd (source : Text) : LoopsEnd source where
  units := .ofForward source forward_unitTurn fun bound => by rw [unitStatements_eq_collect, id_map]
  blocks := .ofForward source (.ofAgree fun limit => blockTurn_agrees (forward_statement.agreeBelow (limit + 1)))
    fun bound => by rw [blockStatements_eq_collect, id_map]
  words := .ofForward source forward_wordTurn moreWords_eq_collect
  lists element isElement close := .ofForward source
    (.ofAgree fun limit => listTurn_agrees (.ofForward (forward_of_isElement isElement) (limit + 1)) close)
    (listElements_eq_collect close element)
  chains := .ofForward source
    (fun tree => .ofAgree fun limit => postfixTurn_agrees (.ofForward forward_expression limit) tree)
    (postfixes_eq_iterate expression)
  operations levels precedence := .ofForward source
    (fun left => .ofAgree fun limit =>
      operationTurn_agrees (fun next => .ofForward (forward_binary levels next) limit) precedence left)
    (operations_eq_iterate _ precedence)
  statement_eq := statement_eq_step
  expression_eq := expression_eq_step
  binary_eq := binary_eq_step expression

end Java
end Lossless
