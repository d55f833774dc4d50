import Lossless.Json.Grammar
import Lossless.Proofs.Parser.Progress
import Lossless.Proofs.Text.Runs
import Mathlib.Data.List.Basic

/-!
# The grammar of data trees goes forward

Every step of the grammar goes forward, and the ones that read a value or a part of one pass some character. The values
inside a list stand behind its opening delimiter, so reading them with brackets nested as deep as there are characters
is reading them with brackets nested in any depth.
-/

namespace Lossless
namespace Json

open Lossless.Parser
open Json.Parser

variable {text : Text} {limit : Nat}

/-! ## Tokens -/

theorem prepend_advances
    {done : Nat}
    {start : Text}
    {scanned : Except Fault ScannedString}
    (char : Char)
    (advances : Advances (fun _ => done) start scanned scanned) :
    Advances (fun _ => done) start (prepend char <$> scanned) (prepend char <$> scanned) := by
  cases advances with
  | ok passes => exact .ok passes
  | error inside unbounded => exact .error inside unbounded

/-- A scan of a string passes its closing quote; where it fails, it has not gone back behind its start. -/
theorem scanString_advances
    {state : StringState}
    {start : Text}
    {done : Nat}
    (here : start.Passes done text)
    (inside : forall bytes digits opened, state = .codePoint bytes digits opened -> start.Passes 0 opened) :
    Advances (fun _ => done + 1) start (scanString state text) (scanString state text) := by
  induction text generalizing state done with
  | nil =>
      have atEnd : start.Passes 0 [] := here.mono (Nat.zero_le _)
      cases state with
      | plain => exact .error atEnd nofun
      | escaped => exact .error atEnd nofun
      | codePoint bytes digits opened => exact .error (inside _ _ _ rfl) nofun
  | cons first rest ih =>
      have behind : start.Passes (done + 1) rest := here.trans (Text.passes_append [first] rest)
      have later (state : StringState)
          (inside : forall bytes digits opened, state = .codePoint bytes digits opened -> start.Passes 0 opened) :
          Advances (fun _ => done + 1) start (scanString state rest) (scanString state rest) :=
        .after (.refl start) (ih behind inside) fun _ => by omega
      cases state with
      | plain =>
          rw [scanString]
          split
          · exact .ok behind
          · split
            · exact later .escaped nofun
            · split
              · exact .error (behind.mono (Nat.zero_le _)) nofun
              · exact prepend_advances first (later .plain nofun)
      | escaped =>
          rw [scanString]
          split
          · refine later _ fun _ _ _ equal => ?_
            cases equal
            exact behind.mono (Nat.zero_le _)
          · exact prepend_advances _ (later .plain nofun)
      | codePoint bytes digits opened =>
          rw [scanString]
          have openedInside := inside _ _ _ rfl
          split
          · exact .error openedInside nofun
          · split
            · exact prepend_advances _ (later .plain nofun)
            · refine later _ fun _ _ _ equal => ?_
              cases equal
              exact openedInside

theorem forward_string : string.Forward fun _ => 1 := by
  intro text
  have scanned : Advances (fun _ => 1) text (scanString .plain (text.drop 1)) (scanString .plain (text.drop 1)) :=
    scanString_advances ⟨text.take 1, (List.take_append_drop 1 text).symm, Nat.zero_le _⟩ nofun
  unfold string
  generalize scanString .plain (text.drop 1) = outcome at scanned ⊢
  cases scanned with
  | ok passes => exact .ok passes
  | error inside unbounded => exact .error inside unbounded

/-- There is no number without characters. -/
theorem forward_number : number.Forward fun _ => 1 := by
  intro text
  unfold number
  dsimp only
  split
  · next value isNumber =>
      refine .ok ⟨text.takeWhile isNumberPart, List.takeWhile_append_dropWhile.symm, ?_⟩
      refine List.length_pos_iff.2 fun empty => ?_
      have noNumber : Binary64.ofText? [] = none := by decide
      rw [empty, noNumber] at isNumber
      cases isNumber
  · exact .error (.refl text) nofun

theorem forward_word
    {words : List Scalar}
    (someText : forall value, value ∈ words -> value.render ≠ []) :
    (word words).Forward fun _ => 1 := by
  induction words with
  | nil => exact fun text => .fail (.refl text) nofun
  | cons value others ih =>
      obtain ⟨here, later⟩ := List.forall_mem_cons.1 someText
      intro text
      refine .bind (.refl text) (forward_accept value.render text) fun found rest atRest => ?_
      refine .ite (fun isFound => ?_) fun _ => ?_
      · subst isFound
        exact .pure (atRest.mono (by have := List.length_pos_iff.2 here; simp only [acceptedLength]; omega))
      · exact .after atRest (ih later rest) fun _ => Nat.le_add_left ..

theorem forward_key : key.Forward fun _ => 1 := by
  intro text
  refine .get ?_
  cases text with
  | nil => exact .fail (.refl []) nofun
  | cons first more =>
      refine .ite (fun _ => forward_string _) fun _ => .ite (fun starts => ?_) fun _ => .fail (.refl _) nofun
      have isPart := Text.isIdentifierPart_of_isIdentifierStart starts
      have name : Advances (fun _ => 1) (first :: more) (takeWhile Text.isIdentifierPart (first :: more))
          (takeWhile Text.isIdentifierPart (first :: more)) := by
        refine .ok ⟨_, List.takeWhile_append_dropWhile.symm, ?_⟩
        rw [List.takeWhile_cons_of_pos isPart]
        exact Nat.succ_le_succ (Nat.zero_le _)
      exact .bind (.refl _) name fun name rest atRest => .pure atRest

/-! ## Lists -/

variable {element element' : Space -> Parser Tree}

namespace Parser

/-- One more element of a list, or its closing delimiter with the element before it, if there is one. -/
def elementTurn
    (close : Text)
    (element : Space -> Parser Tree) : Parser (LoopTurn (RightPadded Tree) (RightPadded Tree)) := do
  let leading <- gap
  if <- accept close then
    return .done (.build (.buildAfter leading .empty))
  else
    let first <- element leading
    let after <- gap
    if <- accept close then
      return .done ⟨first, after, .empty⟩
    else if <- accept [','] then
      return .again ⟨first, after, .empty⟩
    else
      fail (.expected ("',' or '".toList ++ close ++ ['\'']))

/-- Read a value over the values inside it. -/
def valueStep
    (value : Space -> Parser Tree)
    (leading : Space) : Parser Tree := do
  let form <-
    match <- get with
    | '\x7b' :: _ => Form.object <$> delimited ['\x7b'] ['\x7d'] (member value)
    | '[' :: _ => Form.array <$> delimited ['['] [']'] value
    | '"' :: _ => string
    | first :: _ =>
        if first = '-' || first.isDigit then number
        else word [.truth true, .truth false, .null]
    | [] => fail (.expected "value".toList)
  return .buildAfter leading form

/-- Read a value, with brackets nested as deep as there are characters. -/
def value (leading : Space) : Parser Tree := fun text =>
  valueWithin (text.length + 1) leading text

end Parser

theorem elements_eq_collect
    (close : Text)
    (element : Space -> Parser Tree)
    (bound : Nat) :
    elements close element bound =
      (fun (padded, last) => padded ++ [last]) <$> collect (elementTurn close element) bound := by
  induction bound with
  | zero => rfl
  | succ bound ih =>
      rw [elements, collect, ih]
      generalize collect (elementTurn close element) bound = others
      simp only [elementTurn, map_bind, bind_assoc]
      refine bind_congr fun leading => bind_congr fun isClosed => ?_
      split
      · simp only [pure_bind, map_pure, List.nil_append]
      · simp only [bind_assoc]
        refine bind_congr fun first => bind_congr fun after => bind_congr fun isClosed => ?_
        split
        · simp only [pure_bind, map_pure, List.nil_append]
        · simp only [bind_assoc]
          refine bind_congr fun isComma => ?_
          split
          · simp only [pure_bind, map_bind, map_pure, List.cons_append, bind_map_left]
          · rfl

theorem elementTurn_agrees
    (agree : AgreeOnTrees limit element element')
    (close : Text) :
    AgreeBelow limit LoopTurn.least (elementTurn close element) (elementTurn close element') := by
  intro text short
  refine .bind (.refl text) (forward_gap text) fun leading atClose here => ?_
  refine .bind here (forward_accept close atClose) fun isClosed atElement here => .ite (fun _ => ?_) fun _ => ?_
  · exact .pure (here.mono (Nat.zero_le _))
  · refine .bind here (agree leading atElement (by have := here.length_le; omega)) fun first behind here => ?_
    refine .bind here (forward_gap behind) fun after atSign here => ?_
    refine .bind here (forward_accept close atSign) fun isClosed left here => .ite (fun _ => ?_) fun _ => ?_
    · exact .pure (here.mono (Nat.zero_le _))
    · refine .bind here (forward_accept [','] left) fun isComma rest atRest => .ite (fun _ => ?_) fun _ => ?_
      · exact .pure (atRest.mono (show 1 ≤ _ by omega))
      · exact .fail atRest nofun

/-- Elements stand behind an opening delimiter. -/
theorem delimited_agrees
    (agree : AgreeOnTrees limit element element')
    {opening : Text}
    (opens : 0 < opening.length)
    (close : Text) :
    AgreeBelow (limit + 1) (fun _ => 1) (delimited opening close element) (delimited opening close element') := by
  intro text short
  refine .bind (.refl text) (forward_expect opening text) fun _ start here => .get ?_
  have shorter := here.length_le
  rw [elements_eq_collect, elements_eq_collect]
  have loop := collect_advances (elementTurn_agrees agree close) (by omega : start.length < limit)
    (Nat.lt_succ_self _) (Nat.lt_succ_self _)
  exact .after here (loop.map _) fun _ => show 1 ≤ _ by omega

section Values

variable {inner inner' : Space -> Parser Tree}

theorem member_agrees (agree : AgreeOnTrees limit inner inner') :
    AgreeOnTrees (limit + 1) (member inner) (member inner') := by
  intro leading text short
  refine .bind (.refl text) (forward_key text) fun key behind here => ?_
  refine .bind here (forward_gap behind) fun after atSign here => ?_
  refine .bind here (forward_expect [':'] atSign) fun _ behind here => ?_
  refine .bind here (forward_gap behind) fun valueLeading atValue here => ?_
  have shorter : atValue.length + 2 ≤ text.length := here.length_le
  refine .bind here (agree valueLeading atValue (by omega)) fun value rest atRest => ?_
  exact .pure (atRest.mono (Nat.le_add_left ..))

/-! ## Values -/

theorem valueWithin_succ (nestings : Nat) : valueWithin (nestings + 1) = valueStep (valueWithin nestings) := rfl

theorem valueStep_agrees (agree : AgreeOnTrees limit inner inner') :
    AgreeOnTrees (limit + 1) (valueStep inner) (valueStep inner') := by
  intro leading text short
  have built {form other : Parser (Form Tree)} (forms : Advances (fun _ => 1) text (form text) (other text)) :
      Advances (fun _ => 1) text ((form >>= fun form => pure (Tree.buildAfter leading form)) text)
        ((other >>= fun form => pure (Tree.buildAfter leading form)) text) :=
    .bind (.refl text) forms fun form rest atRest => .pure atRest
  refine .get ?_
  dsimp only
  split
  · exact built ((delimited_agrees (member_agrees agree) (by decide) _ _ (by omega)).map Form.object)
  · exact built ((delimited_agrees agree (by decide) _ _ short).map Form.array)
  · exact built (forward_string _)
  · exact .ite (fun _ => built (forward_number _)) fun _ => built (forward_word (by decide) _)
  · exact built (.fail (.refl []) nofun)

/-- The number of nestings does not matter where there are as many as characters. -/
theorem valueWithin_agrees
    {nestings others : Nat}
    (enough : limit ≤ nestings)
    (enoughOthers : limit ≤ others) :
    AgreeOnTrees limit (valueWithin nestings) (valueWithin others) := by
  induction limit generalizing nestings others with
  | zero => exact fun _ _ short => absurd short (Nat.not_lt_zero _)
  | succ limit ih =>
      obtain ⟨nestings, rfl⟩ := Nat.exists_eq_succ_of_ne_zero (by omega : nestings ≠ 0)
      obtain ⟨others, rfl⟩ := Nat.exists_eq_succ_of_ne_zero (by omega : others ≠ 0)
      rw [valueWithin_succ, valueWithin_succ]
      exact valueStep_agrees (ih (by omega) (by omega))

/-- A value is read with any number of nestings that is large enough. -/
theorem value_agrees
    {nestings : Nat}
    (enough : limit ≤ nestings) :
    AgreeOnTrees limit (valueWithin nestings) value := by
  intro leading text short
  have agree : AgreeOnTrees (text.length + 1) (valueWithin nestings) (valueWithin (text.length + 1)) :=
    valueWithin_agrees (by omega) (Nat.le_refl _)
  exact agree leading text (Nat.lt_succ_self _)

theorem forward_value (leading : Space) : (value leading).Forward fun _ => 1 := fun text =>
  valueWithin_agrees (Nat.le_refl _) (Nat.le_refl _) leading text (Nat.lt_succ_self text.length)

/-- A value is a step over values, without any bound. -/
theorem value_eq_step : value = valueStep value := by
  funext leading text
  rw [value, valueWithin_succ]
  exact (valueStep_agrees (value_agrees (Nat.le_refl text.length)) leading text (Nat.lt_succ_self _)).eq

theorem forward_document (path : Path) : (document path).Forward fun _ => 0 := by
  intro text
  refine .bind (.refl text) (forward_gap text) fun leading start here => .get ?_
  refine .bind here (forward_value leading start) fun tree behind here => ?_
  refine .bind here (forward_gap behind) fun eof left here => .get ?_
  cases left with
  | nil => exact .pure (here.mono (Nat.zero_le _))
  | cons first more => exact .fail here nofun

end Values

/-! ## Positions -/

/-- The parsers of the grammar keep to the positions of a source; the ones with a `1` pass some byte. -/
structure KeepsPositions (source : Text) : Prop where
  gaps : StaysIn source (fun _ => 0) gap
  delimiters : forall pattern, StaysIn source (acceptedLength pattern) (accept pattern)
  documents : forall path, StaysIn source (fun _ => 0) (document path)
  values : forall leading, StaysIn source (fun _ => 1) (value leading)
  members : forall leading, StaysIn source (fun _ => 1) (member value leading)
  lists : forall element, element ∈ [value, member value] -> forall opening close, 0 < opening.length ->
    StaysIn source (fun _ => 1) (delimited opening close element)
  keys : StaysIn source (fun _ => 1) key
  strings : StaysIn source (fun _ => 1) string
  numbers : StaysIn source (fun _ => 1) number
  words : StaysIn source (fun _ => 1) (word [.truth true, .truth false, .null])

/-- The loop over elements ends, and the recursion is the one of the grammar, without any bound. -/
structure LoopsEnd (source : Text) : Prop where
  lists : forall element, element ∈ [value, member value] -> forall close,
    Loops source (elementTurn close element) (fun (padded, last) => padded ++ [last]) (elements close element)
  value_eq : value = valueStep value

theorem forward_of_isElement
    {element : Space -> Parser Tree}
    (isElement : element ∈ [value, member value])
    (leading : Space) :
    (element leading).Forward fun _ => 1 := by
  rcases List.mem_pair.1 isElement with rfl | rfl
  · exact forward_value leading
  · exact .ofAgree fun limit => member_agrees (.ofForward forward_value limit) leading

theorem keepsPositions (source : Text) : KeepsPositions source where
  gaps := forward_gap.staysIn source
  delimiters pattern := (forward_accept pattern).staysIn source
  documents path := (forward_document path).staysIn source
  values leading := (forward_value leading).staysIn source
  members leading := (forward_of_isElement (List.mem_pair.2 (.inr rfl)) leading).staysIn source
  lists element isElement opening close opens :=
    (Forward.ofAgree fun limit =>
      delimited_agrees (.ofForward (forward_of_isElement isElement) limit) opens close).staysIn source
  keys := forward_key.staysIn source
  strings := forward_string.staysIn source
  numbers := forward_number.staysIn source
  words := (forward_word (by decide)).staysIn source

theorem loopsEnd (source : Text) : LoopsEnd source where
  lists element isElement close := .ofForward source
    (.ofAgree fun limit => elementTurn_agrees (.ofForward (forward_of_isElement isElement) (limit + 1)) close)
    (elements_eq_collect close element)
  value_eq := value_eq_step

end Json
end Lossless
