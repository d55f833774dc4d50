import Lossless.Proofs.Json.Complete
import Lossless.Proofs.Json.Spelled

/-!
# The standard grammar

`Derives` is the standard grammar of data texts, each phrase with an outline of what it stands for: the objects and
arrays with their members and values in order, and the tokens. A text of the grammar is read as a tree with its outline,
by induction on the derivation: a phrase is read wherever a token ends behind it, as deep as its brackets may be nested.
-/

namespace Lossless
namespace Json

open Lossless.Parser
open Json.Parser

/-! ## White space -/

/-- White space of the standard. -/
def IsWhite (text : Text) : Prop :=
  forall char, char ∈ text -> char ∈ [' ', '\t', '\n', '\r']

namespace IsWhite

variable {left right rest : Text}

theorem nil : IsWhite [] := nofun

theorem append
    (isLeft : IsWhite left)
    (isRight : IsWhite right) :
    IsWhite (left ++ right) :=
  List.forall_mem_append.2 ⟨isLeft, isRight⟩

theorem all_isBlank (isWhite : IsWhite left) : left.all Text.isBlank = true := by
  have areBlank : [' ', '\t', '\n', '\r'].all Text.isBlank = true := by decide
  exact List.all_eq_true.2 fun char member => List.all_eq_true.1 areBlank char (isWhite char member)

/-- White space is read as a gap without comments. -/
theorem gap_eq
    (isWhite : IsWhite left)
    (solid : rest.isSolid = true) :
    gap (left ++ rest) = .ok (.build left [], rest) := by
  refine gap_eq_ok.2 ⟨left, ?_, ?_⟩
  · have scanned := scanGap_append_blank isWhite.all_isBlank (scanGap_of_isSolid solid)
    rwa [List.append_nil] at scanned
  · have split : Space.splitGap .slash (left ++ []) = (left ++ [], []) :=
      Space.splitGap_append_blank isWhite.all_isBlank
    rw [List.append_nil] at split
    rw [Space.format, Space.formatWith, split]

/-- A token ends at white space, and where it ends behind that. -/
theorem endsToken
    (isWhite : IsWhite left)
    (ends : rest.startsIn goesOn = false) :
    (left ++ rest).startsIn goesOn = false := by
  have noWhite : [' ', '\t', '\n', '\r'].any goesOn = false := by decide
  cases left with
  | nil => exact ends
  | cons first left => exact Text.eq_false_of_mem noWhite (isWhite first List.mem_cons_self)

theorem endsToken_sign
    {sign : Char}
    (isWhite : IsWhite left)
    (isSign : sign ∈ signs)
    (rest : Text) :
    (left ++ sign :: rest).startsIn goesOn = false := by
  have noSign : signs.any goesOn = false := by decide
  exact isWhite.endsToken (Text.eq_false_of_mem noSign isSign)

end IsWhite

/-! ## Tokens -/

/-- A unit that the standard lets stand in a string. -/
def StringUnit.IsStandard : StringUnit -> Prop
  | plain char => IsUnescaped char
  | escape letter => letter ∈ escapes.map Prod.fst
  | codePoint digits => digits.length = 4 ∧ digits.all isHexDigit = true

/-- A string of the standard. -/
def IsString (token : Text) : Prop :=
  exists units : List StringUnit, (forall unit, unit ∈ units -> unit.IsStandard) ∧ token = quoted units

theorem StringUnit.IsStandard.isScanned
    {unit : StringUnit}
    (isStandard : unit.IsStandard) :
    unit.IsScanned := by
  cases unit with
  | plain char => exact IsUnescaped.isScanned isStandard
  | escape letter =>
      obtain ⟨pair, isEscape, rfl⟩ := List.mem_map.1 isStandard
      exact (unescape_of_mem_escapes isEscape).1
  | codePoint digits => exact (byteLength_of_isHexDigit isStandard.2).trans isStandard.1

theorem IsString.exists_value
    {token : Text}
    (isString : IsString token) :
    exists value, (Scalar.string value).IsWrittenAs token := by
  obtain ⟨units, areStandard, isQuoted⟩ := isString
  exact ⟨_, isWrittenAs_string_iff.2 ⟨units, fun unit member => (areStandard unit member).isScanned, isQuoted, rfl⟩⟩

/-- One digit or more. -/
def IsDigits (text : Text) : Prop :=
  text ≠ [] ∧ text.all Char.isDigit = true

/-- A whole number, without a zero in front. -/
inductive IsWhole : Text -> Prop
  | zero : IsWhole ['0']
  | digits {first : Char} {more : Text} :
      first.isDigit = true -> first ≠ '0' -> more.all Char.isDigit = true -> IsWhole (first :: more)

inductive IsFraction : Text -> Prop
  | none : IsFraction []
  | digits {digits : Text} : IsDigits digits -> IsFraction ('.' :: digits)

inductive IsExponent : Text -> Prop
  | none : IsExponent []
  | digits {mark : Char} {sign digits : Text} :
      mark ∈ ['e', 'E'] -> sign ∈ [[], ['+'], ['-']] -> IsDigits digits -> IsExponent (mark :: (sign ++ digits))

/-- A number of the standard. -/
inductive IsNumber : Text -> Prop
  | parts {sign whole fraction exponent : Text} :
      sign ∈ [[], ['-']] -> IsWhole whole -> IsFraction fraction -> IsExponent exponent ->
        IsNumber (sign ++ (whole ++ (fraction ++ exponent)))

section Number

variable {text sign whole fraction exponent digits : Text}

theorem IsDigits.startsIn (isDigits : IsDigits digits) : digits.startsIn Char.isDigit = true := by
  obtain ⟨some, areDigits⟩ := isDigits
  cases digits with
  | nil => exact absurd rfl some
  | cons first more => exact (Bool.and_eq_true_iff.1 ((List.all_cons ..).symm.trans areDigits)).1

theorem IsWhole.isDigits (isWhole : IsWhole whole) : IsDigits whole := by
  cases isWhole with
  | zero => exact ⟨nofun, rfl⟩
  | digits isDigit _ areDigits => exact ⟨nofun, by rw [List.all_cons, isDigit, areDigits]; rfl⟩

/-- A sign before a digit is taken off. -/
theorem exists_splitSign
    (isSign : sign ∈ [[], ['+'], ['-']])
    (startsDigit : text.startsIn Char.isDigit = true) :
    exists isNegative, Decimal.splitSign (sign ++ text) = (isNegative, text) := by
  simp only [List.mem_cons, List.not_mem_nil, or_false] at isSign
  rcases isSign with rfl | rfl | rfl
  · refine ⟨false, ?_⟩
    rw [List.nil_append]
    unfold Decimal.splitSign
    split
    · cases startsDigit
    · cases startsDigit
    · rfl
  · exact ⟨false, rfl⟩
  · exact ⟨true, rfl⟩

theorem IsExponent.isSome (isExponent : IsExponent exponent) : (Decimal.exponentOf? exponent).isSome = true := by
  cases isExponent with
  | none => rfl
  | @digits mark sign digits isMark isSign isDigits =>
      obtain ⟨isNegative, split⟩ := exists_splitSign isSign isDigits.startsIn
      have isMarked : (mark = 'e' || mark = 'E') = true := by simpa using isMark
      have notEmpty : digits.isEmpty = false := List.isEmpty_eq_false_iff.2 isDigits.1
      rw [Decimal.exponentOf?, split]
      simp [isMarked, notEmpty, isDigits.2]

/-- An exponent goes on neither with the digits nor with the point before it. -/
theorem IsExponent.startsIn
    {test : Char -> Bool}
    (isExponent : IsExponent exponent)
    (noMark : ['e', 'E'].any test = false) :
    exponent.startsIn test = false := by
  cases isExponent with
  | none => rfl
  | digits isMark => exact Text.eq_false_of_mem noMark isMark

theorem IsFraction.startsIn
    (isFraction : IsFraction fraction)
    (isExponent : IsExponent exponent) :
    (fraction ++ exponent).startsIn Char.isDigit = false := by
  cases isFraction with
  | none => exact isExponent.startsIn (by decide)
  | digits => rfl

/-- A fraction is taken off up to the exponent. -/
theorem exists_splitFraction
    (isFraction : IsFraction fraction)
    (isExponent : IsExponent exponent) :
    exists digits, Decimal.splitFraction (fraction ++ exponent) = (digits, exponent) := by
  have noDigit : exponent.startsIn Char.isDigit = false := isExponent.startsIn (by decide)
  cases isFraction with
  | none =>
      refine ⟨[], ?_⟩
      rw [List.nil_append]
      unfold Decimal.splitFraction
      split
      · have isPoint : Text.startsIn (fun char => char = '.') ('.' :: _) = false := isExponent.startsIn (by decide)
        cases isPoint
      · rfl
  | @digits digits isDigits =>
      refine ⟨digits, ?_⟩
      change ((digits ++ exponent).takeWhile Char.isDigit, (digits ++ exponent).dropWhile Char.isDigit) = _
      rw [Text.takeWhile_run isDigits.2 noDigit, Text.dropWhile_run isDigits.2 noDigit]

/-- A number of the standard is read as a double-precision number. -/
theorem isSome_ofText?
    (isNumber : IsNumber text) :
    (Binary64.ofText? text).isSome = true := by
  cases isNumber with
  | @parts sign whole fraction exponent isSign isWhole isFraction isExponent =>
      have isDigits := isWhole.isDigits
      have noDigit := isFraction.startsIn isExponent
      have anySign : sign ∈ [[], ['+'], ['-']] := by
        simp only [List.mem_cons, List.not_mem_nil, or_false] at isSign ⊢
        exact isSign.imp_right .inr
      obtain ⟨isNegative, split⟩ :=
        exists_splitSign anySign (Text.startsIn_append isDigits.startsIn (fraction ++ exponent))
      obtain ⟨digits, splitFraction⟩ := exists_splitFraction isFraction isExponent
      have notEmpty : whole.isEmpty = false := List.isEmpty_eq_false_iff.2 isDigits.1
      rw [Binary64.ofText?, Option.isSome_map, Decimal.ofText?, split]
      dsimp only
      rw [Text.takeWhile_run isDigits.2 noDigit, Text.dropWhile_run isDigits.2 noDigit, splitFraction]
      dsimp only
      rw [notEmpty, Bool.false_and, if_neg Bool.false_ne_true, Option.isSome_map]
      exact isExponent.isSome

theorem all_isNumberPart
    (areDigits : text.all Char.isDigit = true) :
    text.all isNumberPart = true := by
  refine List.all_eq_true.2 fun char member => ?_
  simp [isNumberPart, List.all_eq_true.1 areDigits char member]

theorem IsNumber.isPart
    (isNumber : IsNumber text) :
    text.all isNumberPart = true := by
  cases isNumber with
  | @parts sign whole fraction exponent isSign isWhole isFraction isExponent =>
      have signs : sign.all isNumberPart = true := by
        simp only [List.mem_cons, List.not_mem_nil, or_false] at isSign
        rcases isSign with rfl | rfl <;> rfl
      have fractions : fraction.all isNumberPart = true := by
        cases isFraction with
        | none => rfl
        | digits isDigits =>
            rw [List.all_cons, all_isNumberPart isDigits.2]
            rfl
      have exponents : exponent.all isNumberPart = true := by
        cases isExponent with
        | none => rfl
        | digits isMark isSign isDigits =>
            rw [List.all_cons, List.all_append, all_isNumberPart isDigits.2, Bool.and_true, Bool.and_eq_true]
            simp only [List.mem_cons, List.not_mem_nil, or_false] at isMark isSign
            constructor
            · rcases isMark with rfl | rfl <;> rfl
            · rcases isSign with rfl | rfl | rfl <;> rfl
      simp [signs, all_isNumberPart isWhole.isDigits.2, fractions, exponents]

theorem IsNumber.startsIn
    (isNumber : IsNumber text) :
    text.startsIn isNumberStart = true := by
  cases isNumber with
  | @parts sign whole fraction exponent isSign isWhole isFraction isExponent =>
      simp only [List.mem_cons, List.not_mem_nil, or_false] at isSign
      rcases isSign with rfl | rfl
      · have isStart {char : Char} (isDigit : char.isDigit = true) : isNumberStart char = true := by
          simp [isNumberStart, isDigit]
        exact Text.startsIn_append (Text.startsIn_of_startsIn isStart isWhole.isDigits.startsIn) _
      · rfl

theorem IsNumber.exists_value (isNumber : IsNumber text) :
    exists value, (Scalar.number value).IsWrittenAs text := by
  obtain ⟨value, isValue⟩ := Option.isSome_iff_exists.1 (isSome_ofText? isNumber)
  exact ⟨value, isNumber.startsIn, isNumber.isPart, isValue⟩

end Number

/-! ## Outlines -/

/-- What a text is made of: objects and arrays with their members and values in order, and tokens. -/
inductive Outline
  | object (members : List Outline)
  | member (key : Text) (value : Outline)
  | array (values : List Outline)
  | scalar (token : Text)

/-- The outlines of the elements of a list: of none when there is one empty element, and else of one element or more. -/
def outlines? (list : List (RightPadded (Tree × Option Outline))) : Option (List Outline) :=
  if list.map (fun padded => padded.element.1.form) = [.empty] then some []
  else if list.isEmpty then none
  else list.mapM fun padded => padded.element.2

/-- The outline of a form with that of each child. -/
def Form.outline? : Form (Tree × Option Outline) -> Option Outline
  | object members => (outlines? members).map .object
  | member key value =>
      match key.element.2, value.2 with
      | some (.scalar token), some outline => some (.member token outline)
      | _, _ => none
  | array values => (outlines? values).map .array
  | literal source _ => some (.scalar source)
  | document .. | identifier _ | empty => none

theorem Form.outline?_member
    {key : RightPadded (Tree × Option Outline)}
    {value : Tree × Option Outline}
    {token : Text}
    {outline : Outline}
    (ofKey : key.element.2 = some (.scalar token))
    (ofValue : value.2 = some outline) :
    (Form.member key value).outline? = some (.member token outline) := by
  rw [Form.outline?, ofKey, ofValue]

namespace Tree

/-- The outline of a value or a member, when its lists have no empty elements but where there are no others. -/
def outline? (tree : Tree) : Option Outline :=
  recurse (fun _ form => form.outline?) tree

/-- A child with its outline. -/
def outlined (tree : Tree) : Tree × Option Outline :=
  (tree, tree.outline?)

theorem outline?_node
    (head : Head)
    (form : Form Tree) :
    (node head form).outline? = (form.map outlined).outline? := by
  rw [outline?, recurse_node]
  rfl

end Tree

/-- The elements of a list have outlines. -/
def HaveOutlines
    (list : List (RightPadded Tree))
    (outlines : List Outline) : Prop :=
  outlines? (list.map (·.map Tree.outlined)) = some outlines

/-- An empty element alone has no outline. -/
theorem haveOutlines_empty (leading : Space) : HaveOutlines [.build (.buildAfter leading .empty)] [] :=
  if_pos rfl

/-- Elements that have outlines are not empty. -/
theorem haveOutlines_of_forall₂
    {list : List (RightPadded Tree)}
    {outlines : List Outline}
    (some : list ≠ [])
    (each : List.Forall₂ (fun padded outline => padded.element.outline? = .some outline) list outlines) :
    HaveOutlines list outlines := by
  have all : list.mapM (fun padded => padded.element.outline?) = .some outlines := by
    clear some
    induction each with
    | nil => rfl
    | cons here _ ih => simp [List.mapM_cons, here, ih]
  have notEmpty : (list.map (·.map Tree.outlined)).isEmpty = false := by simpa using some
  unfold HaveOutlines outlines?
  rw [if_neg, if_neg (Bool.eq_false_iff.1 notEmpty), List.mapM_map]
  · exact all
  · intro alone
    rw [List.map_map] at alone
    obtain ⟨padded, rfl, isEmpty⟩ := List.map_eq_singleton_iff.1 alone
    cases each with
    | cons here _ =>
        obtain ⟨⟨head, form⟩, after, markers⟩ := padded
        obtain rfl : form = .empty := isEmpty
        rw [Tree.outline?_node] at here
        cases here

/-! ## The grammar -/

/-- What can be an element of a list: values stand in arrays, and members in objects. -/
inductive ItemKind
  | value
  | member

/-- A phrase with its outline: an item, or the items of a list that is not empty. -/
inductive Phrase
  | item (kind : ItemKind) (outline : Outline)
  | items (kind : ItemKind) (outlines : List Outline)

/-- A structural character with the white space around it. -/
def IsSign
    (sign : Char)
    (text : Text) : Prop :=
  exists before after, IsWhite before ∧ IsWhite after ∧ text = before ++ sign :: after

/-- The texts of the phrases of the grammar. -/
inductive Derives : Phrase -> Text -> Prop
  | word {token : Text} :
      token ∈ ["true".toList, "false".toList, "null".toList] -> Derives (.item .value (.scalar token)) token
  | number {token : Text} : IsNumber token -> Derives (.item .value (.scalar token)) token
  | string {token : Text} : IsString token -> Derives (.item .value (.scalar token)) token
  | emptyObject {opening closing : Text} :
      IsSign '\x7b' opening -> IsSign '\x7d' closing -> Derives (.item .value (.object [])) (opening ++ closing)
  | object {opening text closing : Text} {members : List Outline} :
      IsSign '\x7b' opening -> Derives (.items .member members) text -> IsSign '\x7d' closing ->
        Derives (.item .value (.object members)) (opening ++ (text ++ closing))
  | emptyArray {opening closing : Text} :
      IsSign '[' opening -> IsSign ']' closing -> Derives (.item .value (.array [])) (opening ++ closing)
  | array {opening text closing : Text} {values : List Outline} :
      IsSign '[' opening -> Derives (.items .value values) text -> IsSign ']' closing ->
        Derives (.item .value (.array values)) (opening ++ (text ++ closing))
  | member {key colon text : Text} {value : Outline} :
      IsString key -> IsSign ':' colon -> Derives (.item .value value) text ->
        Derives (.item .member (.member key value)) (key ++ (colon ++ text))
  | single {kind : ItemKind} {text : Text} {outline : Outline} :
      Derives (.item kind outline) text -> Derives (.items kind [outline]) text
  | more {kind : ItemKind} {text comma others : Text} {outline : Outline} {outlines : List Outline} :
      Derives (.item kind outline) text -> IsSign ',' comma -> Derives (.items kind outlines) others ->
        Derives (.items kind (outline :: outlines)) (text ++ (comma ++ others))

/-- A value with white space around it. -/
def IsDataText
    (outline : Outline)
    (text : Text) : Prop :=
  exists before body after, IsWhite before ∧ IsWhite after ∧ text = before ++ (body ++ after) ∧
    Derives (.item .value outline) body

/-! ## Reading a phrase -/

namespace ItemKind

/-- The parser of items whose brackets are nested as deep as given. -/
def parser : ItemKind -> Nat -> Space -> Parser Tree
  | value, depth => valueWithin depth
  | member, depth => Parser.member (valueWithin depth)

/-- What opens a list of items. -/
def opening : ItemKind -> Char
  | value => '['
  | member => '\x7b'

/-- What closes a list of items. -/
def closing : ItemKind -> Char
  | value => ']'
  | member => '\x7d'

/-- The form of a list of items. -/
def listForm : ItemKind -> List (RightPadded Tree) -> Form Tree
  | value, list => .array list
  | member, list => .object list

/-- The outline of a list of items. -/
def listOutline : ItemKind -> List Outline -> Outline
  | value, outlines => .array outlines
  | member, outlines => .object outlines

theorem closing_mem_signs (kind : ItemKind) : kind.closing ∈ signs := by
  cases kind <;> decide

theorem closing_ne_comma (kind : ItemKind) : kind.closing ≠ ',' := by
  cases kind <;> decide

theorem opensElement_opening (kind : ItemKind) : opensElement kind.opening = true := by
  cases kind <;> decide

theorem outline?_listForm
    {list : List (RightPadded Tree)}
    {outlines : List Outline}
    (kind : ItemKind)
    (haveOutlines : HaveOutlines list outlines) :
    ((kind.listForm list).map Tree.outlined).outline? = some (kind.listOutline outlines) := by
  cases kind with
  | value => exact congrArg (Option.map Outline.array) haveOutlines
  | member => exact congrArg (Option.map Outline.object) haveOutlines

/-- A delimited list is a value. -/
theorem valueWithin_list
    {depth : Nat}
    {text rest : Text}
    {list : List (RightPadded Tree)}
    (kind : ItemKind)
    (read : delimited [kind.opening] [kind.closing] (kind.parser depth) (kind.opening :: text) = .ok (list, rest))
    (leading : Space) :
    valueWithin (depth + 1) leading (kind.opening :: text) = .ok (.buildAfter leading (kind.listForm list), rest) := by
  unfold valueWithin
  rw [bind_get]
  cases kind with
  | value => exact bind_of_ok (map_eq_ok.2 ⟨_, read, rfl⟩)
  | member => exact bind_of_ok (map_eq_ok.2 ⟨_, read, rfl⟩)

end ItemKind

/-- A text is read as a node of a form, wherever a token ends behind it. -/
structure ReadsItem
    (kind : ItemKind)
    (outline : Outline)
    (body : Text)
    (form : Form Tree) : Prop where
  opens : body.startsIn opensElement = true
  reads : forall {depth leading rest}, (body ++ rest).length < depth -> rest.startsIn goesOn = false ->
    kind.parser depth leading (body ++ rest) = .ok (.buildAfter leading form, rest)
  outline : (form.map Tree.outlined).outline? = some outline

/-- How a phrase is read: an item within white space, and items as the elements of a list. -/
def Phrase.IsRead : Phrase -> Text -> Prop
  | item kind outline, text =>
      exists before body after form, IsWhite before ∧ IsWhite after ∧ text = before ++ (body ++ after) ∧
        ReadsItem kind outline body form
  | items kind outlines, text =>
      forall {front back}, IsWhite front -> IsWhite back ->
        exists list, list ≠ [] ∧
          List.Forall₂ (fun padded outline => padded.element.outline? = some outline) list outlines ∧
            forall {depth fuel rest}, (front ++ (text ++ (back ++ kind.closing :: rest))).length < depth ->
              text.length < fuel ->
                elements [kind.closing] (kind.parser depth) fuel
                  (front ++ (text ++ (back ++ kind.closing :: rest))) = .ok (list, rest)

theorem ReadsItem.isRead
    {kind : ItemKind}
    {outline : Outline}
    {body : Text}
    {form : Form Tree}
    (reads : ReadsItem kind outline body form) :
    (Phrase.item kind outline).IsRead body :=
  ⟨[], body, [], form, IsWhite.nil, IsWhite.nil, (List.append_nil body).symm, reads⟩

variable {kind : ItemKind} {outline : Outline} {outlines : List Outline} {text front back : Text}

/-! ### Lists -/

/-- The steps in which an item is read within white space, up to the sign behind it. -/
theorem item_steps
    (isRead : (Phrase.item kind outline).IsRead text)
    (isFront : IsWhite front)
    (isBack : IsWhite back)
    {sign : Char}
    (isSign : sign ∈ signs) :
    exists tree after, tree.outline? = some outline ∧
      forall {depth rest}, (front ++ (text ++ (back ++ sign :: rest))).length < depth ->
        exists leading body behind,
          gap (front ++ (text ++ (back ++ sign :: rest))) = .ok (leading, body) ∧
            accept [kind.closing] body = .ok (false, body) ∧ kind.parser depth leading body = .ok (tree, behind) ∧
            gap behind = .ok (after, sign :: rest) := by
  obtain ⟨before, body, after, form, isBefore, isAfter, rfl, opens, reads, hasOutline⟩ := isRead
  refine ⟨.buildAfter (.build (front ++ before) []) form, .build (after ++ back) [], ?_, ?_⟩
  · exact (Tree.outline?_node _ form).trans hasOutline
  · intro depth rest short
    have starts := Text.startsIn_append opens ((after ++ back) ++ sign :: rest)
    -- white space of the item joins the white space around it, as the parser takes it at once
    have written : front ++ ((before ++ (body ++ after)) ++ (back ++ sign :: rest)) =
        (front ++ before) ++ (body ++ ((after ++ back) ++ sign :: rest)) := by simp
    have shorter : (body ++ ((after ++ back) ++ sign :: rest)).length < depth := by
      rw [written, List.length_append] at short
      omega
    refine ⟨_, _, _, ?_, ?_, reads shorter ((isAfter.append isBack).endsToken_sign isSign rest), ?_⟩
    · rw [written]
      exact (isFront.append isBefore).gap_eq (isSolid_of_opensElement starts)
    · exact accept_of_none (dropStart?_of_opensElement kind.closing_mem_signs starts)
    · exact (isAfter.append isBack).gap_eq (isSolid_of_sign isSign rest)

/-- One item is read as a list of one element. -/
theorem items_of_item (isRead : (Phrase.item kind outline).IsRead text) :
    (Phrase.items kind [outline]).IsRead text := by
  intro front back isFront isBack
  obtain ⟨tree, after, hasOutline, steps⟩ := item_steps isRead isFront isBack kind.closing_mem_signs
  refine ⟨[⟨tree, after, .empty⟩], nofun, .cons hasOutline .nil, fun {depth fuel rest} short enough => ?_⟩
  obtain ⟨fuel, rfl⟩ : exists fewer, fuel = fewer + 1 := Nat.exists_eq_add_one.2 (Nat.zero_lt_of_lt enough)
  obtain ⟨leading, body, behind, readLeading, notClosed, read, readAfter⟩ := steps short
  unfold elements
  rw [bind_of_ok readLeading, bind_of_ok notClosed, if_neg Bool.false_ne_true, bind_of_ok read, bind_of_ok readAfter,
    bind_of_ok (accept_cons kind.closing rest), if_pos rfl]
  rfl

/-- An item before other items is read as their first element. -/
theorem items_cons
    {comma others : Text}
    (isRead : (Phrase.item kind outline).IsRead text)
    (isComma : IsSign ',' comma)
    (areRead : (Phrase.items kind outlines).IsRead others) :
    (Phrase.items kind (outline :: outlines)).IsRead (text ++ (comma ++ others)) := by
  intro front back isFront isBack
  obtain ⟨before, behindComma, isBefore, isBehind, rfl⟩ := isComma
  have atComma : ',' ∈ signs := by decide
  obtain ⟨tree, after, hasOutline, steps⟩ := item_steps isRead isFront isBefore atComma
  obtain ⟨list, -, haveOutlines, readOthers⟩ := areRead isBehind isBack
  refine ⟨⟨tree, after, .empty⟩ :: list, nofun, .cons hasOutline haveOutlines, fun {depth fuel rest} short enough => ?_⟩
  obtain ⟨fuel, rfl⟩ : exists fewer, fuel = fewer + 1 := Nat.exists_eq_add_one.2 (Nat.zero_lt_of_lt enough)
  have written : front ++ ((text ++ ((before ++ ',' :: behindComma) ++ others)) ++ (back ++ kind.closing :: rest)) =
      front ++ (text ++ (before ++ ',' :: (behindComma ++ (others ++ (back ++ kind.closing :: rest))))) := by simp
  rw [written] at short ⊢
  have shorter : (behindComma ++ (others ++ (back ++ kind.closing :: rest))).length < depth := by
    simp only [List.length_append, List.length_cons] at short ⊢
    omega
  have fewer : others.length < fuel := by
    simp only [List.length_append, List.length_cons] at enough
    omega
  obtain ⟨leading, body, behind, readLeading, notClosed, read, readAfter⟩ := steps short
  have later := readOthers shorter fewer
  unfold elements
  rw [bind_of_ok readLeading, bind_of_ok notClosed, if_neg Bool.false_ne_true, bind_of_ok read, bind_of_ok readAfter,
    bind_of_ok (accept_of_ne kind.closing_ne_comma _), if_neg Bool.false_ne_true, bind_of_ok (accept_cons ',' _),
    if_pos rfl, bind_of_ok later]
  rfl

/-- The text between the delimiters of a list is read as its elements. -/
def ReadsList
    (kind : ItemKind)
    (inner : Text)
    (list : List (RightPadded Tree)) : Prop :=
  forall {depth rest}, (inner ++ kind.closing :: rest).length < depth ->
    elements [kind.closing] (kind.parser depth) ((inner ++ kind.closing :: rest).length + 1)
      (inner ++ kind.closing :: rest) = .ok (list, rest)

/-- A list between delimiters is a value. -/
theorem value_of_readsList
    {inner : Text}
    {list : List (RightPadded Tree)}
    (reads : ReadsList kind inner list)
    (haveOutlines : HaveOutlines list outlines) :
    ReadsItem .value (kind.listOutline outlines) (kind.opening :: (inner ++ [kind.closing])) (kind.listForm list) where
  opens := kind.opensElement_opening
  reads := by
    intro depth leading rest short _
    have written : kind.opening :: (inner ++ [kind.closing]) ++ rest =
        kind.opening :: (inner ++ kind.closing :: rest) := by simp
    rw [written] at short ⊢
    cases depth with
    | zero => cases short
    | succ depth =>
        refine kind.valueWithin_list ?_ leading
        unfold delimited
        rw [bind_of_ok (expect_cons kind.opening _), bind_get]
        exact reads (Nat.lt_of_succ_lt_succ short)
  outline := kind.outline?_listForm haveOutlines

/-- Delimiters with white space around them and nothing else between them are read as an empty list. -/
theorem isRead_of_none
    {opening closing : Text}
    (kind : ItemKind)
    (opens : IsSign kind.opening opening)
    (closes : IsSign kind.closing closing) :
    (Phrase.item .value (kind.listOutline [])).IsRead (opening ++ closing) := by
  obtain ⟨outer, inner, isOuter, isInner, rfl⟩ := opens
  obtain ⟨before, after, isBefore, isAfter, rfl⟩ := closes
  have isWhite := isInner.append isBefore
  have reads : ReadsList kind (inner ++ before) [.build (.buildAfter (.build (inner ++ before) []) .empty)] := by
    intro depth rest _
    unfold elements
    rw [bind_of_ok (isWhite.gap_eq (isSolid_of_sign kind.closing_mem_signs rest)),
      bind_of_ok (accept_cons kind.closing rest), if_pos rfl]
    rfl
  exact ⟨outer, _, after, _, isOuter, isAfter, by simp, value_of_readsList reads (haveOutlines_empty _)⟩

/-- Items between delimiters with white space around them are read as a list. -/
theorem isRead_of_items
    {opening closing : Text}
    (kind : ItemKind)
    (opens : IsSign kind.opening opening)
    (areRead : (Phrase.items kind outlines).IsRead text)
    (closes : IsSign kind.closing closing) :
    (Phrase.item .value (kind.listOutline outlines)).IsRead (opening ++ (text ++ closing)) := by
  obtain ⟨outer, inner, isOuter, isInner, rfl⟩ := opens
  obtain ⟨before, after, isBefore, isAfter, rfl⟩ := closes
  obtain ⟨list, some, haveOutlines, read⟩ := areRead isInner isBefore
  have reads : ReadsList kind (inner ++ (text ++ before)) list := by
    intro depth rest short
    have written : (inner ++ (text ++ before)) ++ kind.closing :: rest =
        inner ++ (text ++ (before ++ kind.closing :: rest)) := by simp
    rw [written] at short ⊢
    refine read short ?_
    simp only [List.length_append, List.length_cons]
    omega
  exact ⟨outer, _, after, _, isOuter, isAfter, by simp,
    value_of_readsList reads (haveOutlines_of_forall₂ some haveOutlines)⟩

/-! ### Tokens and members -/

/-- A token is read as a literal. -/
theorem isRead_of_isWrittenAs
    {token : Text}
    {value : Scalar}
    (isWritten : value.IsWrittenAs token) :
    (Phrase.item .value (.scalar token)).IsRead token := by
  have reads : ReadsItem .value (.scalar token) token (.literal token value) := by
    refine ⟨isWritten.startsIn_opensElement, fun {depth leading rest} short ends => ?_, rfl⟩
    have canonical : (Tree.build (.literal token value)).IsCanonical :=
      Tree.isCanonical_of_parts isWritten nofun nofun nofun
    have written : (Tree.build (.literal token value)).form.written = token := Form.written_literal token value
    have read : _ -> valueWithin depth leading _ = _ := valueWithin_complete depth canonical rfl ends
    rw [written] at read
    exact read short
  exact reads.isRead

/-- A member is read with its value. -/
theorem isRead_member
    {key colon : Text}
    (isKey : IsString key)
    (isColon : IsSign ':' colon)
    (isRead : (Phrase.item .value outline).IsRead text) :
    (Phrase.item .member (.member key outline)).IsRead (key ++ (colon ++ text)) := by
  obtain ⟨name, isWritten⟩ := isKey.exists_value
  obtain ⟨beforeColon, afterColon, isBeforeColon, isAfterColon, rfl⟩ := isColon
  obtain ⟨before, body, after, form, isBefore, isAfter, rfl, opens, reads, hasOutline⟩ := isRead
  have isLeading := isAfterColon.append isBefore
  let member : Form Tree :=
    .member ⟨.build (.literal key (.string name)), .build beforeColon [], .empty⟩
      (.buildAfter (.build (afterColon ++ before) []) form)
  have isMember : ReadsItem .member (.member key outline)
      (key ++ (beforeColon ++ ':' :: (afterColon ++ before) ++ body)) member := by
    refine ⟨Text.startsIn_append isWritten.startsIn_opensElement _, fun {depth leading rest} short ends => ?_, ?_⟩
    · have atColon : ':' ∈ signs := by decide
      have written : (key ++ (beforeColon ++ ':' :: (afterColon ++ before) ++ body)) ++ rest =
          key ++ (beforeColon ++ ':' :: ((afterColon ++ before) ++ (body ++ rest))) := by simp
      rw [written] at short ⊢
      have shorter : (body ++ rest).length < depth := by
        simp only [List.length_append, List.length_cons] at short ⊢
        omega
      have starts := Text.startsIn_append opens rest
      have readKey := key_complete (show (Form.literal key (.string name)).Fits from isWritten) rfl 
        (isBeforeColon.endsToken_sign atColon ((afterColon ++ before) ++ (body ++ rest)))
      rw [Form.written_literal] at readKey
      have readValue (space : Space) :
          valueWithin depth space (body ++ rest) = .ok (.buildAfter space form, rest) := reads shorter ends
      change Parser.member (valueWithin depth) leading _ = _
      unfold Parser.member
      rw [bind_of_ok readKey, bind_of_ok (isBeforeColon.gap_eq (isSolid_of_sign atColon _)),
        bind_of_ok (expect_cons ':' _), bind_of_ok (isLeading.gap_eq (isSolid_of_opensElement starts)),
        bind_of_ok (readValue _)]
      rfl
    · have keyOutline : (Tree.build (.literal key (.string name))).outline? = some (.scalar key) :=
        Tree.outline?_node _ _
      have valueOutline : (Tree.buildAfter (.build (afterColon ++ before) []) form).outline? = some outline :=
        (Tree.outline?_node _ form).trans hasOutline
      exact Form.outline?_member keyOutline valueOutline
  exact ⟨[], _, after, member, IsWhite.nil, isAfter, by simp, isMember⟩

/-- Every phrase of the grammar is read. -/
theorem isRead_of_derives
    {phrase : Phrase}
    (derives : Derives phrase text) :
    phrase.IsRead text := by
  induction derives with
  | @word token isWord =>
      have isWritten : exists value : Scalar, value.IsWrittenAs token := by
        simp only [List.mem_cons, List.not_mem_nil, or_false] at isWord
        rcases isWord with rfl | rfl | rfl
        · exact ⟨.truth true, rfl⟩
        · exact ⟨.truth false, rfl⟩
        · exact ⟨.null, rfl⟩
      exact isRead_of_isWrittenAs isWritten.choose_spec
  | number isNumber => exact isRead_of_isWrittenAs isNumber.exists_value.choose_spec
  | string isString => exact isRead_of_isWrittenAs isString.exists_value.choose_spec
  | emptyObject opens closes => exact isRead_of_none .member opens closes
  | object opens _ closes ih => exact isRead_of_items .member opens ih closes
  | emptyArray opens closes => exact isRead_of_none .value opens closes
  | array opens _ closes ih => exact isRead_of_items .value opens ih closes
  | member isKey isColon _ ih => exact isRead_member isKey isColon ih
  | single _ ih => exact items_of_item ih
  | more _ isComma _ ih others => exact items_cons ih isComma others

/-! ## Reading a data text -/

/--
Every data text of the grammar is read as a document with its outline: an object or an array for each in the text, with
the members or values of it in order, or with one empty element when it has none, and a literal for each scalar, whose
source is the token.
-/
theorem dataText_isRead
    (path : Path)
    (isDataText : IsDataText outline text) :
    exists value eof, parse text path = .ok (.build (.document ⟨path, none, none⟩ value eof)) ∧
      value.outline? = some outline := by
  obtain ⟨front, body, back, isFront, isBack, rfl, derives⟩ := isDataText
  obtain ⟨before, body, after, form, isBefore, isAfter, rfl, opens, reads, hasOutline⟩ := isRead_of_derives derives
  have isLeading := isFront.append isBefore
  have isEof := isAfter.append isBack
  have starts := Text.startsIn_append opens (after ++ back)
  have written : front ++ ((before ++ (body ++ after)) ++ back) = (front ++ before) ++ (body ++ (after ++ back)) := by
    simp
  have readLeading := isLeading.gap_eq (isSolid_of_opensElement starts)
  have ends : (after ++ back).startsIn goesOn = false := by
    rw [<- List.append_nil (after ++ back)]
    exact isEof.endsToken rfl
  have readEof : gap (after ++ back) = .ok (.build (after ++ back) [], []) := by
    have read := isEof.gap_eq (show Text.isSolid [] = true from rfl)
    rwa [List.append_nil] at read
  refine ⟨.buildAfter (.build (front ++ before) []) form, .build (after ++ back) [], ?_,
    (Tree.outline?_node _ form).trans hasOutline⟩
  have readValue (space : Space) : valueWithin _ space (body ++ (after ++ back)) = .ok (.buildAfter space form, _) :=
    reads (Nat.lt_succ_self _) ends
  have read : document path (front ++ ((before ++ (body ++ after)) ++ back)) =
      .ok (.build (.document ⟨path, none, none⟩ (.buildAfter (.build (front ++ before) []) form)
        (.build (after ++ back) [])), []) := by
    unfold document
    rw [written, bind_of_ok readLeading, bind_get, bind_of_ok (readValue _), bind_of_ok readEof,
      bind_get]
    rfl
  rw [parse, read]

/-- An object with a list of a number and an empty object. -/
def nestedOutline : Outline :=
  .object [.member "\"k\"".toList (.array [.scalar "0".toList, .object []])]

/-- The object behind a blank, with a carriage return alone in the list. -/
def nestedText : Text :=
  " \x7b\"k\":[0,\r\x7b\x7d]\x7d".toList

theorem dataText_isRead_ofNested :
    IsDataText nestedOutline nestedText ∧
      exists value eof, parse nestedText ⟨"a.json".toList⟩ =
          .ok (.build (.document ⟨⟨"a.json".toList⟩, none, none⟩ value eof)) ∧
        value.outline? = some nestedOutline := by
  have isBlank : IsWhite [' '] := List.forall_mem_singleton.2 (by decide)
  have isReturn : IsWhite ['\r'] := List.forall_mem_singleton.2 (by decide)
  have isUnescaped : IsUnescaped 'k' := by
    unfold IsUnescaped
    decide
  have alone (sign : Char) : IsSign sign [sign] := ⟨[], [], IsWhite.nil, IsWhite.nil, rfl⟩
  have isComma : IsSign ',' [',', '\r'] := ⟨[], ['\r'], IsWhite.nil, isReturn, rfl⟩
  have isKey : IsString "\"k\"".toList := ⟨[.plain 'k'], List.forall_mem_singleton.2 isUnescaped, rfl⟩
  have isZero : IsNumber "0".toList := IsNumber.parts List.mem_cons_self .zero .none .none
  have values := Derives.more (.number isZero) isComma (.single (.emptyObject (alone _) (alone _)))
  have members := Derives.single (.member isKey (alone _) (.array (alone _) values (alone _)))
  have isDataText : IsDataText nestedOutline nestedText :=
    ⟨[' '], _, [], isBlank, IsWhite.nil, rfl, .object (alone _) members (alone _)⟩
  exact ⟨isDataText, dataText_isRead ⟨"a.json".toList⟩ isDataText⟩

end Json
end Lossless
