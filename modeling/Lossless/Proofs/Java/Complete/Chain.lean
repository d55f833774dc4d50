import Lossless.Proofs.Java.Complete.List
import Lossless.Proofs.Java.Sound.Expression

/-!
# Chains are read back

Primary expressions, and the field accesses and calls chained onto them. A chain that is written to the end
of its last part takes the loop over dots as far as that part, whatever the loop does afterwards.
-/

namespace Lossless
namespace Java

open Lossless.Parser
open Java.Parser

variable {text rest : Text} {leading : Space} {tree : Tree}

/-! ## Where a chain ends -/

/-- No word goes on, and no parenthesis opens behind the next gap. -/
def EndsName (text : Text) : Prop :=
  text.startsIn Text.isIdentifierPart = false ∧
    ∃ run after, scanGap text = .ok (run, after) ∧ Text.dropStart? ['('] after = none

theorem EndsName.of_gap
    {space : Space}
    {first : Char}
    (isGap : space.IsGap)
    (member : first ∈ punctuation)
    (notParen : first ≠ '(')
    {after : Text}
    (solid : Text.isSolid (first :: after) = true) :
    EndsName (space.render .slash ++ first :: after) := by
  refine ⟨startsIn_render_cons isGap first member after, space.render .slash, first :: after, ?_, ?_⟩
  · exact scanGap_render isGap solid fun isFinal => by cases isFinal
  · simp [Text.dropStart?, Ne.symm notParen]

/-- A number does not go on in a gap, nor with a sign other than a dot behind it. -/
theorem startsIn_numberPart_of_gap
    {space : Space}
    {first : Char}
    (isGap : space.IsGap)
    (member : first ∈ punctuation)
    (after : Text)
    (apart : first = '.' -> space.isEmpty = false) :
    (space.render .slash ++ first :: after).startsIn isNumberPart = false := by
  refine Space.startsIn_render_numberPart isGap fun isEmpty => ?_
  have notDot : first ≠ '.' := fun isDot => by simp [apart isDot] at isEmpty
  have onlyDot : punctuation.any (fun char => char ≠ '.' && isNumberPart char) = false := by decide
  have noPart : isNumberPart first = false := by simpa [notDot] using Text.eq_false_of_mem onlyDot member
  exact noPart

/-- The text ends a tree of a chain: it goes on neither with its last word nor with its digits. -/
structure EndsChain
    (tree : Tree)
    (text : Text) : Prop where
  name : EndsName text
  number : tree.form.isNumeral = true -> text.startsIn isNumberPart = false

/-- The tree before a dot ends there. -/
theorem endsChain_of_dot
    {before : Space}
    (isGap : before.IsGap)
    (apart : tree.form.isNumeral = true -> before.isEmpty = false)
    (after : Text) :
    EndsChain tree (before.render .slash ++ '.' :: after) where
  name := .of_gap isGap (by decide) (by decide) (isSolid_of_punctuation (by decide) (by decide) _)
  number := fun isNumeral =>
    startsIn_numberPart_of_gap isGap (by decide) after fun _ => apart isNumeral

/-- A tree of a chain that starts with a token of its own. -/
def Form.isPrimary : Form α -> Bool
  | identifier name _ => !isLiteralWord name
  | literal .. | parentheses _ | collection .. => true
  | call receiver _ _ _ => receiver.isNone
  | _ => false

/-- An operation stands in a chain only between parentheses. -/
theorem Form.isChain_binary
    (left right : α)
    (operator : LeftPadded Operator)
    (typeTag : Option Text) :
    (binary left operator right typeTag).isChain = false := by
  have loose := precedence_lt_operatorLevels operator.element
  rw [isChain, Bool.and_eq_false_iff]
  exact .inr (decide_eq_false (Nat.not_le_of_lt loose))

/-! ## Words -/

theorem isKeywordNext_eq
    {keyword : Text}
    (inside : keyword.all Text.isIdentifierPart = true)
    (text : Text) :
    isKeywordNext keyword text =
      .ok (decide (text.takeWhile Text.isIdentifierPart = keyword), text) :=
  (isKeywordNext_eq_ok inside).2 ⟨by simp, rfl⟩

theorem takeWhile_name
    {name : Text}
    (isName : isName name = true)
    (ends : rest.startsIn Text.isIdentifierPart = false) :
    (name ++ rest).takeWhile Text.isIdentifierPart = name :=
  Text.takeWhile_run (isName_iff.1 isName).2 ends

/-- Nothing that a name starts with starts another primary expression. -/
theorem ne_of_isIdentifierStart
    {char : Char}
    (starts : Text.isIdentifierStart char = true) :
    char ∉ ['(', '[', '"', '\'', '-'] ∧ char.isDigit = false := by
  constructor
  · intro member
    have noneStarts : ['(', '[', '"', '\'', '-'].any Text.isIdentifierStart = false := by decide
    rw [Text.eq_false_of_mem noneStarts member] at starts
    cases starts
  · refine Bool.eq_false_iff.2 fun isDigit => ?_
    have all : forall number, number ∈ List.range' 48 10 ->
        Text.isIdentifierStart (Char.ofNat number) = false := by
      decide
    simp only [Char.isDigit, Bool.and_eq_true, decide_eq_true_eq, UInt32.le_iff_toNat_le] at isDigit
    have low : 48 ≤ char.toNat := isDigit.1
    have high : char.toNat ≤ 57 := isDigit.2
    have atChar := all char.toNat (List.mem_range'_1.2 (by omega))
    rw [Char.ofNat_toNat, starts] at atChar
    cases atChar

/-- A part that is a name is a word, and a new one after its space. -/
theorem exists_name_of_isIdentifier
    (part : tree.IsPart)
    (isIdentifier : tree.form.isIdentifier = true) :
    ∃ name, isName name = true ∧ tree.form = .identifier name none ∧
      tree.renewed = .spaced tree.leading.renewed (.identifier name none) := by
  have fits := part.canonical.root.fits
  have renewed := part.renewed
  cases form : tree.form with
  | identifier name typeTag =>
      rw [form] at fits
      obtain ⟨isName, rfl⟩ := fits
      refine ⟨name, isName, rfl, ?_⟩
      rw [renewed, Tree.placed, form]
      rfl
  | _ =>
      rw [form] at isIdentifier
      cases isIdentifier

theorem isName_of_isLiteralWord
    {name : Text}
    (isLiteral : isLiteralWord name = true) :
    isName name = true := by
  simp only [isLiteralWord, Bool.or_eq_true, decide_eq_true_eq] at isLiteral
  obtain (rfl | rfl) | rfl := isLiteral <;> decide

/-- A number starts with no sign that another literal or a bracket starts with. -/
theorem ne_of_isNumberStart
    {first : Char}
    {more : Text}
    (starts : isNumberStart (first :: more) = true) :
    first ∉ ['(', '[', '"', '\''] := by
  intro member
  have noDigit : first.isDigit = false := Text.eq_false_of_mem (by decide) member
  have notMinus : first ≠ '-' := by
    rintro rfl
    revert member
    decide
  unfold isNumberStart at starts
  split at starts
  · next equal => exact notMinus (List.cons.inj equal).1
  · next equal =>
      obtain ⟨rfl, -⟩ := List.cons.inj equal
      rw [noDigit] at starts
      cases starts
  · cases starts

theorem isNumberStart_append
    {text : Text}
    (starts : isNumberStart text = true)
    (rest : Text) :
    isNumberStart (text ++ rest) = true := by
  unfold isNumberStart at starts
  split at starts
  · exact starts
  · next first more notMinus =>
      unfold isNumberStart
      split
      · next equal =>
          obtain ⟨rfl, -⟩ := List.cons.inj equal
          cases starts
      · next equal =>
          obtain ⟨rfl, -⟩ := List.cons.inj equal
          exact starts
      · next equal => cases equal
  · cases starts

section Expression

variable {expression : Space -> Parser Tree} {bound : Nat}
variable (complete : IsComplete Form.isValue bound expression)

/-- No arguments are read where no parenthesis opens. -/
theorem arguments?_none
    (ends : EndsName text) :
    arguments? expression text = .ok (none, text) := by
  obtain ⟨-, run, after, scanned, noParen⟩ := ends
  have looked : isNextAfterGap ['('] text = .ok (false, text) :=
    isNextAfterGap_eq_ok.2 ⟨rfl, run, after, scanned, by rw [noParen]; rfl⟩
  rw [arguments?, bind_of_ok looked]
  rfl

include complete

/-- Written arguments are read back. -/
theorem arguments?_complete
    {list : Container Tree}
    (isGap : list.before.IsGap)
    (sound : SoundContainer Form.isValue list)
    (short : (writtenContainer (['('], [')']) list ++ rest).length ≤ bound) :
    arguments? expression (writtenContainer (['('], [')']) list ++ rest) =
      .ok (some ⟨list.before.renewed, list.padded.map (·.renewed Tree.renewed), .empty⟩, rest) := by
  have whole : writtenContainer (['('], [')']) list ++ rest =
      list.before.render .slash ++ '(' :: (writtenElements list.padded ++ ')' :: rest) := by
    simp [writtenContainer]
  have solid : Text.isSolid ('(' :: (writtenElements list.padded ++ ')' :: rest)) = true :=
    isSolid_of_punctuation (by decide) (by decide) _
  rw [whole] at short ⊢
  have looked := isNextAfterGap_render isGap solid (fun isFinal => by cases isFinal) ['(']
  have readList : container expression list.before.renewed (['('], [')'])
      ('(' :: (writtenElements list.padded ++ ')' :: rest)) =
        .ok (⟨list.before.renewed, list.padded.map (·.renewed Tree.renewed), .empty⟩, rest) := by
    refine container_complete complete .inl (.inl rfl) sound list.before.renewed ?_
    simp only [List.length_append, List.length_cons] at short ⊢
    omega
  rw [arguments?, bind_of_ok looked, if_pos (by simp [Text.dropStart?]),
    bind_of_ok (gap_render isGap solid fun isFinal => by cases isFinal), bind_of_ok readList]
  rfl

/-- A written parenthesised expression is read back. -/
theorem parentheses_complete
    (canonical : tree.IsCanonical)
    (isParentheses : tree.form.isParentheses = true)
    (short : (tree.form.written ++ rest).length ≤ bound) :
    parentheses expression leading (tree.form.written ++ rest) = .ok (tree.placed leading, rest) := by
  obtain ⟨head, form⟩ := tree
  cases form with
  | parentheses inner =>
      obtain ⟨kind, noMarkers⟩ : inner.element.form.isValue = true ∧ inner.markers.toList = [] :=
        canonical.root.fits
      have part : inner.element.IsPart := canonical.part (by simp [Form.children])
      have isGap := canonical.root.gaps inner.after (by simp [Form.gaps])
      have whole : (Form.parentheses inner).written ++ rest =
          '(' :: (inner.element.written ++ (inner.after.render .slash ++ ')' :: rest)) := by
        simp
      rw [Tree.form_node, whole] at short ⊢
      rw [List.length_cons] at short
      rw [parentheses, bind_of_ok (expect_cons _ _),
        bind_element complete .inl part kind isGap (isSolid_of_closer (by decide) rest)
          (.of_gap isGap (by decide) rest) short,
        bind_of_ok (expect_cons _ _), run_pure]
      simp [Tree.placed, Form.renewed, RightPadded.renewed, Markers.renewed_of_toList noMarkers]
  | _ => cases isParentheses

omit complete in
/-- A primary expression is read as its first character says. -/
theorem primary_cons
    (first : Char)
    (more : Text) :
    primary expression leading (first :: more) =
      if first = '(' then parentheses expression leading (first :: more)
      else if first = '[' then
        (container expression .empty (['['], [']']) >>= fun elements =>
          pure (.spaced leading (.collection .list elements none))) (first :: more)
      else if first = '"' || first = '\'' then
        match splitQuoted? first false more with
        | some (body, after) => .ok (.spaced leading (.literal (first :: body) none), after)
        | none => .error ⟨.unterminatedLiteral, first :: more⟩
      else if isNumberStart (first :: more) then
        .ok (.spaced leading (.literal (first :: more.takeWhile isNumberPart) none),
          more.dropWhile isNumberPart)
      else if Text.isIdentifierStart first then word expression leading (first :: more)
      else .error ⟨.expected "expression".toList, first :: more⟩ := by
  rw [primary, bind_get]
  dsimp only
  by_cases isParen : first = '('
  · rw [if_pos isParen, if_pos isParen]
  · rw [if_neg isParen, if_neg isParen]
    by_cases isBracket : first = '['
    · rw [if_pos isBracket, if_pos isBracket]
    · rw [if_neg isBracket, if_neg isBracket]
      by_cases isQuote : (first = '"' || first = '\'') = true
      · rw [if_pos isQuote, if_pos isQuote]
        cases splitQuoted? first false more <;> rfl
      · rw [if_neg isQuote, if_neg isQuote]
        by_cases isNumber : isNumberStart (first :: more) = true
        · rw [if_pos isNumber, if_pos isNumber]
          rfl
        · rw [if_neg isNumber, if_neg isNumber]
          by_cases isName : Text.isIdentifierStart first = true
          · rw [if_pos isName, if_pos isName]
          · rw [if_neg isName, if_neg isName]
            rfl

omit complete in
/-- A text that starts with a name is read as a word. -/
theorem primary_of_isName
    {name : Text}
    (isName : isName name = true)
    (rest : Text) :
    primary expression leading (name ++ rest) = word expression leading (name ++ rest) := by
  cases name with
  | nil => cases isName
  | cons first more =>
      obtain ⟨starts, -⟩ := isName_iff.1 isName
      obtain ⟨others, noDigit⟩ := ne_of_isIdentifierStart starts
      simp only [List.mem_cons, List.not_mem_nil, or_false, not_or] at others
      obtain ⟨notParen, notBracket, notDouble, notSingle, notMinus⟩ := others
      have noNumber : isNumberStart (first :: (more ++ rest)) = false := by
        unfold isNumberStart
        split
        · next equal => exact absurd (List.cons.inj equal).1 notMinus
        · next equal =>
            obtain ⟨rfl, -⟩ := List.cons.inj equal
            exact noDigit
        · rfl
      have startsName : Text.isIdentifierStart first = true := starts
      rw [List.cons_append, primary_cons, if_neg notParen, if_neg notBracket,
        if_neg (by simp [notDouble, notSingle]), if_neg (by simp [noNumber]), if_pos startsName]

omit complete in
/-- A word is a literal or a name, with or without arguments behind it. -/
theorem word_of_isName
    {name : Text}
    (isName : isName name = true)
    (ends : rest.startsIn Text.isIdentifierPart = false) :
    word expression leading (name ++ rest) =
      if isLiteralWord name then .ok (.spaced leading (.literal name none), rest)
      else
        (arguments? expression >>= fun arguments =>
          match arguments with
          | some arguments =>
              pure (.spaced leading (.call none (.identifier name) arguments none))
          | none => pure (.spaced leading (.identifier name none))) rest := by
  have whole := takeWhile_name isName ends
  have keyword : forall {keyword : Text}, keyword.all Text.isIdentifierPart = true ->
      isKeywordNext keyword (name ++ rest) = .ok (decide (name = keyword), name ++ rest) := by
    intro keyword inside
    rw [isKeywordNext_eq inside, whole]
  rw [word, bind_of_ok (keyword (by decide)), bind_of_ok (keyword (by decide)),
    bind_of_ok (keyword (by decide)), bind_of_ok (identifier_eq_ok.2 ⟨rfl, isName, ends⟩),
    isLiteralWord]
  split <;> rfl

omit complete in
/-- A written literal is read back. -/
theorem literal_complete
    {source : Text}
    (kind : (isLiteralWord source || isNumber source || isQuoted source) = true)
    (ends : rest.startsIn Text.isIdentifierPart = false)
    (number : isNumber source = true -> rest.startsIn isNumberPart = false) :
    primary expression leading (source ++ rest) =
      .ok (.spaced leading (.literal source none), rest) := by
  cases isWord : isLiteralWord source with
  | true =>
      have isName : isName source = true := isName_of_isLiteralWord isWord
      rw [primary_of_isName isName, word_of_isName isName ends, if_pos isWord]
  | false =>
      rw [isWord, Bool.false_or, Bool.or_eq_true] at kind
      cases source with
      | nil => simp [isNumber, isQuoted] at kind
      | cons first more =>
          rw [List.cons_append, primary_cons]
          rcases kind with isNumber | isQuoted
          · have outside := number isNumber
            rw [Java.isNumber, Bool.and_eq_true] at isNumber
            obtain ⟨starts, inside⟩ := isNumber
            have others := ne_of_isNumberStart starts
            simp only [List.mem_cons, List.not_mem_nil, or_false, not_or] at others
            obtain ⟨notParen, notBracket, notDouble, notSingle⟩ := others
            have startsWhole : isNumberStart (first :: (more ++ rest)) = true :=
              isNumberStart_append starts rest
            rw [if_neg notParen, if_neg notBracket, if_neg (by simp [notDouble, notSingle]),
              if_pos startsWhole, Text.takeWhile_run inside outside,
              Text.dropWhile_run inside outside]
          · rw [Java.isQuoted, Bool.and_eq_true, decide_eq_true_eq] at isQuoted
            obtain ⟨isQuote, split⟩ := isQuoted
            obtain ⟨-, again⟩ := splitQuoted?_eq_some split
            have notOpen : first ≠ '(' ∧ first ≠ '[' := by
              simp only [Bool.or_eq_true, decide_eq_true_eq] at isQuote
              rcases isQuote with rfl | rfl <;> decide
            rw [if_neg notOpen.1, if_neg notOpen.2, if_pos isQuote, again rest]

/-- A call without a receiver is read back. -/
theorem primary_plainCall
    {head : Head}
    {name : Tree}
    {arguments : Container Tree}
    {typeTag : Option Text}
    (canonical : (Tree.node head (.call none name arguments typeTag)).IsCanonical)
    (short : ((Form.call none name arguments typeTag).written ++ rest).length ≤ bound) :
    primary expression leading ((Form.call none name arguments typeTag).written ++ rest) =
      .ok ((Tree.node head (.call none name arguments typeTag)).placed leading, rest) := by
  obtain ⟨fits, separates, gaps, -, -, -⟩ := canonical.root
  obtain ⟨noLiteral, isIdentifier, fitsArguments, rfl⟩ := fits
  obtain ⟨noSpace, closes⟩ := separates
  have part : name.IsPart := canonical.part (by simp [Form.children])
  have sound : SoundContainer Form.isValue arguments :=
    ⟨fitsArguments, closes, fun space member => gaps space (by simp [Form.gaps, member]),
      fun child member => canonical.part (by simp [Form.children, member])⟩
  obtain ⟨word, isName, form, renewed⟩ := exists_name_of_isIdentifier part isIdentifier
  have noWord : ¬isLiteralWord word = true := by
    rw [form] at noLiteral
    exact Bool.eq_false_iff.1 noLiteral
  have isGap := gaps arguments.before (by simp [Form.gaps])
  have whole : (Form.call none name arguments none).written ++ rest =
      word ++ (writtenContainer (['('], [')']) arguments ++ rest) := by
    simp [writtenReceiver, Tree.written_of_isEmpty noSpace, form]
  have apart : (writtenContainer (['('], [')']) arguments ++ rest).startsIn Text.isIdentifierPart = false := by
    simpa [writtenContainer] using startsIn_render_cons isGap '(' (by decide)
      (writtenElements arguments.padded ++ ')' :: rest)
  rw [whole] at short ⊢
  have readArguments : arguments? expression (writtenContainer (['('], [')']) arguments ++ rest) =
      .ok (some ⟨arguments.before.renewed, arguments.padded.map (·.renewed Tree.renewed), .empty⟩, rest) := by
    refine arguments?_complete complete isGap sound ?_
    rw [List.length_append] at short
    omega
  rw [primary_of_isName isName, word_of_isName isName apart, if_neg noWord, bind_of_ok readArguments]
  dsimp only
  rw [run_pure]
  rw [Space.renewed_of_isEmpty noSpace] at renewed
  have noMarkers := Markers.renewed_of_toList fitsArguments.1
  simp only [Tree.placed, Tree.form_node, Form.renewed, renewed, Container.renewed, noMarkers]
  rfl

/-- A list of values is read back. -/
theorem primary_collection
    {head : Head}
    {kind : CollectionKind}
    {elements : Container Tree}
    {typeTag : Option Text}
    (canonical : (Tree.node head (.collection kind elements typeTag)).IsCanonical)
    (short : ((Form.collection kind elements typeTag).written ++ rest).length ≤ bound) :
    primary expression leading ((Form.collection kind elements typeTag).written ++ rest) =
      .ok ((Tree.node head (.collection kind elements typeTag)).placed leading, rest) := by
  obtain ⟨fits, separates, gaps, -, -, -⟩ := canonical.root
  obtain ⟨rfl, fitsElements, rfl⟩ := fits
  obtain ⟨noSpace, closes⟩ := separates
  have sound : SoundContainer Form.isValue elements :=
    ⟨fitsElements, closes, fun space member => gaps space (by simp [Form.gaps, member]),
      fun child member => canonical.part (by simp [Form.children, member])⟩
  have whole : (Form.collection .list elements none).written ++ rest =
      '[' :: (writtenElements elements.padded ++ ']' :: rest) := by
    simp [writtenContainer, CollectionKind.delimiters, (Space.render_eq_nil_iff _).2 noSpace]
  rw [whole] at short ⊢
  have readElements : container expression .empty (['['], [']'])
      ('[' :: (writtenElements elements.padded ++ ']' :: rest)) =
        .ok (⟨.empty, elements.padded.map (·.renewed Tree.renewed), .empty⟩, rest) :=
    container_complete complete .inl (.inr rfl) sound .empty short
  have notParen : '[' ≠ '(' := by decide
  rw [primary_cons, if_neg notParen, if_pos rfl, bind_of_ok readElements, run_pure]
  have noMarkers := Markers.renewed_of_toList fitsElements.1
  simp only [Tree.placed, Tree.form_node, Form.renewed, Container.renewed, noMarkers,
    Space.renewed_of_isEmpty noSpace]

/-- A written primary expression is read back. -/
theorem primary_complete
    (canonical : tree.IsCanonical)
    (isPrimary : tree.form.isPrimary = true)
    (ends : EndsChain tree rest)
    (short : (tree.form.written ++ rest).length ≤ bound) :
    primary expression leading (tree.form.written ++ rest) = .ok (tree.placed leading, rest) := by
  obtain ⟨head, form⟩ := tree
  have fits := canonical.root.fits
  cases form with
  | identifier name typeTag =>
      obtain ⟨isName, rfl⟩ := fits
      have noLiteral : ¬isLiteralWord name = true := by simpa [Form.isPrimary] using isPrimary
      rw [Tree.form_node, Form.written_identifier, primary_of_isName isName,
        word_of_isName isName ends.name.1, if_neg noLiteral, bind_of_ok (arguments?_none ends.name)]
      rfl
  | literal source typeTag =>
      obtain ⟨kind, rfl⟩ := fits
      rw [Tree.form_node, Form.written_literal]
      exact literal_complete kind ends.name.1 ends.number
  | call receiver name arguments typeTag =>
      cases receiver with
      | none => exact primary_plainCall complete canonical short
      | some receiver => cases isPrimary
  | parentheses inner =>
      rw [Tree.form_node, Form.written_parentheses, List.cons_append, primary_cons, if_pos rfl]
      have read : parentheses expression leading
          ((Tree.node head (.parentheses inner)).form.written ++ rest) =
            .ok ((Tree.node head (.parentheses inner)).placed leading, rest) :=
        parentheses_complete complete canonical rfl short
      rwa [Tree.form_node, Form.written_parentheses, List.cons_append] at read
  | collection kind elements typeTag => exact primary_collection complete canonical short
  | _ => cases isPrimary

/-! ## Dots -/

omit complete in
/-- The loop over dots ends where no dot follows the next gap. -/
theorem postfixes_end
    {run after : Text}
    {fuel : Nat}
    (enough : 0 < fuel)
    (scanned : scanGap text = .ok (run, after))
    (noDot : Text.dropStart? ['.'] after = none)
    (tree : Tree) :
    postfixes expression fuel tree text = .ok (tree, text) := by
  obtain ⟨fuel, rfl⟩ : ∃ less, fuel = less + 1 := ⟨fuel - 1, by omega⟩
  rw [postfixes, bind_get, bind_of_ok (gap_eq_ok.2 ⟨run, scanned, rfl⟩),
    bind_of_ok (accept_of_none noDot), if_neg Bool.false_ne_true, bind_set, run_pure]

omit complete in
/-- A written name behind a dot is read, and then what comes after it. -/
theorem postfixes_dot
    {before nameLeading : Space}
    {name : Text}
    {arguments : Option (Container Tree)}
    {left : Text}
    (beforeIsGap : before.IsGap)
    (nameIsGap : nameLeading.IsGap)
    (isName : isName name = true)
    (ends : text.startsIn Text.isIdentifierPart = false)
    (readArguments : arguments? expression text = .ok (arguments, left))
    (fuel : Nat)
    (tree : Tree) :
    postfixes expression (fuel + 1) tree
        (before.render .slash ++ '.' :: (nameLeading.render .slash ++ (name ++ text))) =
      postfixes expression fuel
        (tree.leadingFrom fun target =>
          match arguments with
          | some arguments =>
              .call (some ⟨target, before.renewed, .empty⟩)
                (.spaced nameLeading.renewed (.identifier name none)) arguments none
          | none =>
              .fieldAccess target
                ⟨before.renewed, .spaced nameLeading.renewed (.identifier name none), .empty⟩ none)
        left := by
  have dotSolid : Text.isSolid ('.' :: (nameLeading.render .slash ++ (name ++ text))) = true :=
    isSolid_of_punctuation (by decide) (by decide) _
  have nameSolid : Text.isSolid (name ++ text) = true :=
    Text.isSolid_of_startsIn <| Text.startsIn_of_startsIn Text.isIdentifierPart_of_isIdentifierStart <|
      startsIn_append_of_isName isName text
  rw [postfixes, bind_get, bind_of_ok (gap_render beforeIsGap dotSolid fun isFinal => by cases isFinal),
    bind_of_ok (accept_cons _ _), if_pos rfl,
    bind_of_ok (gap_render nameIsGap nameSolid fun isFinal => by cases isFinal),
    bind_of_ok (identifier_eq_ok.2 ⟨rfl, isName, ends⟩), bind_of_ok readArguments]
  cases arguments <;> rfl

/-- The first value of a chain is read, and from there the loop over dots gets to the end of the tree. -/
def ReachesEnd
    (expression : Space -> Parser Tree)
    (leading : Space)
    (tree : Tree)
    (rest : Text) : Prop :=
  ∃ first middle, primary expression leading (tree.form.written ++ rest) = .ok (first, middle) ∧
    forall fuel, middle.length < fuel -> ∃ left, rest.length < left ∧
      postfixes expression fuel first middle = postfixes expression left (tree.placed leading) rest

section Turns

variable {head : Head} {name part : Tree} {typeTag : Option Text}
variable (reaches : forall middle, EndsChain part middle -> (part.form.written ++ middle).length ≤ bound ->
  ReachesEnd expression leading part middle)

omit complete in
/-- One more turn of the loop gets from the end of a part to that of the tree. -/
theorem ReachesEnd.turn
    {middle : Text}
    (reaches : ReachesEnd expression leading part middle)
    (written : tree.form.written ++ rest = part.form.written ++ middle)
    (shorter : rest.length < middle.length)
    (turn : forall fuel, postfixes expression (fuel + 1) (part.placed leading) middle =
      postfixes expression fuel (tree.placed leading) rest) :
    ReachesEnd expression leading tree rest := by
  obtain ⟨first, start, readFirst, go⟩ := reaches
  refine ⟨first, start, by rw [written, readFirst], fun fuel enough => ?_⟩
  obtain ⟨left, more, equal⟩ := go fuel enough
  obtain ⟨less, rfl⟩ : ∃ less, left = less + 1 := ⟨left - 1, by omega⟩
  exact ⟨less, by omega, equal.trans (turn less)⟩

include reaches

omit complete in
theorem reachesEnd_fieldAccess
    {name : LeftPadded Tree}
    (canonical : (Tree.node head (.fieldAccess part name typeTag)).IsCanonical)
    (ends : EndsName rest)
    (short : ((Form.fieldAccess part name typeTag).written ++ rest).length ≤ bound) :
    ReachesEnd expression leading (.node head (.fieldAccess part name typeTag)) rest := by
  obtain ⟨fits, separates, gaps, -, -, -⟩ := canonical.root
  obtain ⟨-, isIdentifier, noMarkers, rfl⟩ := fits
  obtain ⟨noSpace, apart⟩ := separates
  have isPart : part.IsPart := canonical.part (by simp [Form.children])
  have namePart : name.element.IsPart := canonical.part (by simp [Form.children])
  obtain ⟨word, isName, nameForm, nameRenewed⟩ := exists_name_of_isIdentifier namePart isIdentifier
  have isGap := gaps name.before (by simp [Form.gaps])
  have whole : (Form.fieldAccess part name none).written ++ rest =
      part.form.written ++ (name.before.render .slash ++
        '.' :: (name.element.leading.render .slash ++ (word ++ rest))) := by
    simp [Tree.written_of_isEmpty noSpace, name.element.written_eq, nameForm]
  rw [whole] at short
  refine (reaches _ (endsChain_of_dot isGap apart _) short).turn whole ?_ fun fuel => ?_
  · simp only [List.length_append, List.length_cons]
    omega
  · have noArguments : arguments? expression rest = .ok (none, rest) := arguments?_none ends
    rw [postfixes_dot isGap namePart.leading isName ends.1 noArguments]
    dsimp only
    rw [Tree.placed, Tree.leadingFrom_spaced, ← Tree.placed,
      ← Tree.renewed_eq_placed_empty isPart.unmarked noSpace, Tree.placed, Tree.form_node, Form.renewed,
      LeftPadded.renewed, nameRenewed, Markers.renewed_of_toList noMarkers]

include complete

theorem reachesEnd_call
    {after : Space}
    {markers : Markers Space}
    {arguments : Container Tree}
    (canonical : (Tree.node head (.call (some ⟨part, after, markers⟩) name arguments typeTag)).IsCanonical)
    (short : ((Form.call (some ⟨part, after, markers⟩) name arguments typeTag).written ++ rest).length ≤ bound) :
    ReachesEnd expression leading (.node head (.call (some ⟨part, after, markers⟩) name arguments typeTag)) rest := by
  obtain ⟨fits, separates, gaps, -, -, -⟩ := canonical.root
  obtain ⟨⟨-, noMarkers⟩, isIdentifier, fitsArguments, rfl⟩ := fits
  obtain ⟨noSpace, closes, apart⟩ := separates
  have isPart : part.IsPart := canonical.part (by simp [Form.children])
  have namePart : name.IsPart := canonical.part (by simp [Form.children])
  have sound : SoundContainer Form.isValue arguments :=
    ⟨fitsArguments, closes, fun space member => gaps space (by simp [Form.gaps, member]),
      fun child member => canonical.part (by simp [Form.children, member])⟩
  obtain ⟨word, isName, nameForm, nameRenewed⟩ := exists_name_of_isIdentifier namePart isIdentifier
  have isGap := gaps after (by simp [Form.gaps])
  have argumentsIsGap := gaps arguments.before (by simp [Form.gaps])
  have whole : (Form.call (some ⟨part, after, markers⟩) name arguments none).written ++ rest =
      part.form.written ++ (after.render .slash ++ '.' :: (name.leading.render .slash ++
        (word ++ (writtenContainer (['('], [')']) arguments ++ rest)))) := by
    simp [writtenReceiver, Tree.written_of_isEmpty noSpace, name.written_eq, nameForm]
  have wordEnds : (writtenContainer (['('], [')']) arguments ++ rest).startsIn Text.isIdentifierPart = false := by
    simpa [writtenContainer] using startsIn_render_cons argumentsIsGap '(' (by decide)
      (writtenElements arguments.padded ++ ')' :: rest)
  rw [whole] at short
  refine (reaches _ (endsChain_of_dot isGap apart _) short).turn whole ?_ fun fuel => ?_
  · simp only [List.length_append, List.length_cons]
    omega
  · have readArguments : arguments? expression (writtenContainer (['('], [')']) arguments ++ rest) =
        .ok (some ⟨arguments.before.renewed, arguments.padded.map (·.renewed Tree.renewed), .empty⟩, rest) := by
      refine arguments?_complete complete argumentsIsGap sound ?_
      simp only [List.length_append, List.length_cons] at short ⊢
      omega
    rw [postfixes_dot isGap namePart.leading isName wordEnds readArguments]
    dsimp only
    rw [Tree.placed, Tree.leadingFrom_spaced, ← Tree.placed,
      ← Tree.renewed_eq_placed_empty isPart.unmarked noSpace, Tree.placed, Tree.form_node, Form.renewed,
      Container.renewed, nameRenewed, Markers.renewed_of_toList fitsArguments.1]
    simp only [Option.map_some, RightPadded.renewed, Markers.renewed_of_toList noMarkers]

end Turns

/-- A written chain takes the loop over dots as far as its last part. -/
theorem chain_complete
    (canonical : tree.IsCanonical)
    (isChain : tree.form.isChain = true)
    (ends : EndsChain tree rest)
    (short : (tree.form.written ++ rest).length ≤ bound) :
    ReachesEnd expression leading tree rest := by
  induction tree using Tree.induction generalizing rest with
  | step head form ih =>
      cases isPrimary : form.isPrimary with
      | true =>
          exact ⟨_, rest, primary_complete complete canonical isPrimary ends short,
            fun fuel enough => ⟨fuel, enough, rfl⟩⟩
      | false =>
          cases form with
          | fieldAccess target name typeTag =>
              have isFirst : target ∈ (Form.fieldAccess target name typeTag).children := List.mem_cons_self
              exact reachesEnd_fieldAccess (fun middle ends short =>
                ih target isFirst (canonical.part isFirst).canonical canonical.root.fits.1 ends short)
                canonical ends.name short
          | call receiver name arguments typeTag =>
              cases receiver with
              | none => cases isPrimary
              | some receiver =>
                  have isFirst : receiver.element ∈ (Form.call (some receiver) name arguments typeTag).children :=
                    List.mem_cons_self
                  exact reachesEnd_call complete (fun middle ends short =>
                    ih receiver.element isFirst (canonical.part isFirst).canonical canonical.root.fits.1.1 ends short)
                    canonical short
          | binary left operator right typeTag => exact absurd isChain (by simp [Form.isChain_binary])
          | identifier name typeTag =>
              have noWord : Form.isPrimary (.identifier name typeTag : Form Tree) = true :=
                Form.isOperand_of_isChain isChain
              rw [noWord] at isPrimary
              cases isPrimary
          | literal source typeTag => cases isPrimary
          | parentheses inner => cases isPrimary
          | collection kind elements typeTag => cases isPrimary
          | _ => cases isChain

end Expression

end Java
end Lossless
