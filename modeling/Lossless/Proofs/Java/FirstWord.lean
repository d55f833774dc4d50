import Lossless.Proofs.Java.Lexeme
import Lossless.Proofs.Java.Written

/-!
# The first word of a tree

The word that a reader finds at the start of a written tree is the first word of the tree: the leftmost
token decides it, since the spaces on the way down to that token are empty.
-/

namespace Lossless
namespace Java

namespace Tree

/-- The first token of a tree is that of its first part, or a token of its own. -/
theorem firstToken_eq (tree : Tree) :
    tree.firstToken =
      match tree.form with
      | .block .. => ['\x7b']
      | .conditional .. => "if".toList
      | .otherwise _ => "else".toList
      | .returns _ => "return".toList
      | .assignment target _ _ => target.firstToken
      | .binary left _ _ _ => left.firstToken
      | .identifier name _ => name
      | .literal source _ => source
      | .fieldAccess target _ _ => target.firstToken
      | .call (some receiver) _ _ _ => receiver.element.firstToken
      | .call none name _ _ => name.firstToken
      | .declaration (some returnType) _ _ _ => returnType.firstToken
      | .declaration none name _ _ => name.firstToken
      | .parentheses _ => ['(']
      | .collection kind _ _ => kind.delimiters.1
      | .unknown text => text.takeWhile Text.isIdentifierPart
      | .compilationUnit .. | .empty => [] := by
  obtain ⟨head, form⟩ := tree
  rw [firstToken, recurse_node]
  cases form with
  | call receiver name arguments typeTag => cases receiver <;> rfl
  | declaration returnType name parameters body => cases returnType <;> rfl
  | _ => rfl

/-- A tree is left open when its last part is. -/
theorem endsOpen_eq (tree : Tree) :
    tree.endsOpen =
      match tree.form with
      | .conditional _ _ none => true
      | .conditional _ _ (some alternative) => alternative.endsOpen
      | .otherwise body => body.element.endsOpen
      | _ => false := by
  obtain ⟨head, form⟩ := tree
  rw [endsOpen, recurse_node]
  cases form with
  | conditional condition consequence alternative => cases alternative <;> rfl
  | _ => rfl

/-- A tree whose space is empty is written as its form. -/
theorem written_of_isEmpty
    {tree : Tree}
    (isEmpty : tree.leading.isEmpty = true) :
    tree.written = tree.form.written := by
  rw [written_eq, (Space.render_eq_nil_iff _).2 isEmpty, List.nil_append]

end Tree

theorem takeWhile_append_of_startsIn
    {test : Char -> Bool}
    {rest : Text}
    (outside : rest.startsIn test = false)
    (text : Text) :
    (text ++ rest).takeWhile test = text.takeWhile test := by
  induction text with
  | nil => exact Text.takeWhile_run rfl outside
  | cons first more ih =>
      cases inside : test first with
      | false => simp [inside]
      | true => simpa [inside] using ih

/-- A return type starts with the first of its words. -/
theorem firstWord_returnType
    {first : Text}
    {more : List (Text × Text)}
    (isName : isName first = true)
    (outside : (writtenWords more).startsIn Text.isIdentifierPart = false) :
    (Parser.returnType first more).firstWord = first := by
  have inside := (isName_iff.1 isName).2
  have once : (first ++ []).takeWhile Text.isIdentifierPart = first := Text.takeWhile_run inside rfl
  rw [List.append_nil] at once
  rw [Tree.firstWord, Tree.firstToken_eq]
  cases more with
  | nil => exact once
  | cons pair others =>
      change ((first ++ writtenWords (pair :: others)).takeWhile Text.isIdentifierPart).takeWhile
        Text.isIdentifierPart = first
      rw [Text.takeWhile_run inside outside, once]

/-- The characters that stand between words. -/
def punctuation : List Char :=
  ['+', '-', '*', '/', '%', '=', '!', '<', '>', '&', '|', '(', ')', '[', ']', '\x7b', '\x7d', '.',
    ',', ';', '"', '\'']

theorem isIdentifierPart_of_punctuation
    {char : Char}
    (member : char ∈ punctuation) :
    Text.isIdentifierPart char = false :=
  Text.eq_false_of_mem (by decide) member

/-- A gap with punctuation behind it does not go on with a word. -/
theorem startsIn_render_cons
    {space : Space}
    (isGap : space.IsGap)
    (first : Char)
    (member : first ∈ punctuation)
    (rest : Text) :
    (space.render .slash ++ first :: rest).startsIn Text.isIdentifierPart = false :=
  Space.startsIn_render_identifierPart isGap fun _ => isIdentifierPart_of_punctuation member

/-- No operator starts like a word. -/
theorem symbol_startsIn
    (operator : Operator)
    (rest : Text) :
    (operator.symbol .java ++ rest).startsIn Text.isIdentifierPart = false := by
  cases operator <;> exact isIdentifierPart_of_punctuation (by decide)

/-- The first word of a written value or of written words. -/
theorem takeWhile_written
    {tree : Tree}
    {rest : Text}
    (canonical : tree.IsCanonical)
    (kind : tree.form.isValue = true ∨ tree.form.isWords = true)
    (outside : rest.startsIn Text.isIdentifierPart = false) :
    (tree.form.written ++ rest).takeWhile Text.isIdentifierPart = tree.firstWord := by
  induction tree using Tree.induction generalizing rest with
  | step head form ih =>
      obtain ⟨⟨fits, separates, gaps, -, -, -⟩, below⟩ := (Tree.isCanonical_iff _).1 canonical
      rw [Tree.firstWord, Tree.firstToken_eq]
      cases form with
      | identifier name typeTag => simpa using takeWhile_append_of_startsIn outside name
      | literal source typeTag => simpa using takeWhile_append_of_startsIn outside source
      | unknown text =>
          have inside := Text.all_takeWhile Text.isIdentifierPart text
          have once : (text.takeWhile Text.isIdentifierPart ++ []).takeWhile Text.isIdentifierPart =
              text.takeWhile Text.isIdentifierPart :=
            Text.takeWhile_run inside rfl
          rw [List.append_nil] at once
          simpa [takeWhile_append_of_startsIn outside text] using once.symm
      | assignment target value typeTag =>
          have first := ih target (by simp [Form.children])
            (below target (by simp [Form.children])) (.inl (Form.isValue_of_isOperand fits.1))
            (startsIn_render_cons (gaps value.before (by simp [Form.gaps])) '=' (by decide)
              (value.element.written ++ rest))
          simpa [Tree.written_of_isEmpty separates, Tree.firstWord] using first
      | binary left operator right typeTag =>
          have behind : (operator.before.render .slash ++
              (operator.element.symbol .java ++ (right.written ++ rest))).startsIn
                Text.isIdentifierPart = false :=
            Space.startsIn_render_identifierPart (gaps operator.before (by simp [Form.gaps]))
              fun _ => symbol_startsIn operator.element _
          have first := ih left (by simp [Form.children]) (below left (by simp [Form.children]))
            (.inl (Form.isValue_of_isOperand fits.1.1)) behind
          simpa [Tree.written_of_isEmpty separates.1, Tree.firstWord] using first
      | fieldAccess target name typeTag =>
          have first := ih target (by simp [Form.children])
            (below target (by simp [Form.children])) (.inl (Form.isValue_of_isChain fits.1))
            (startsIn_render_cons (gaps name.before (by simp [Form.gaps])) '.' (by decide)
              (name.element.written ++ rest))
          simpa [Tree.written_of_isEmpty separates.1, Tree.firstWord] using first
      | call receiver name arguments typeTag =>
          cases receiver with
          | some receiver =>
              have first := ih receiver.element (by simp [Form.children])
                (below receiver.element (by simp [Form.children]))
                (.inl (Form.isValue_of_isChain fits.1.1))
                (startsIn_render_cons (gaps receiver.after (by simp [Form.gaps])) '.' (by decide)
                  (name.written ++ (writtenContainer (['('], [')']) arguments ++ rest)))
              simpa [writtenReceiver, Tree.written_of_isEmpty separates.1, Tree.firstWord] using first
          | none =>
              have first := ih name (by simp [Form.children]) (below name (by simp [Form.children]))
                (.inr (Form.isWords_of_isIdentifier fits.2.1))
                (startsIn_render_cons (gaps arguments.before (by simp [Form.gaps])) '(' (by decide)
                  (writtenElements arguments.padded ++ ')' :: rest))
              simpa [writtenReceiver, writtenContainer, Tree.written_of_isEmpty separates.1, Tree.firstWord] using first
      | parentheses inner =>
          have paren : Text.isIdentifierPart '(' = false :=
            isIdentifierPart_of_punctuation (by decide)
          simp [paren]
      | collection kind elements typeTag =>
          obtain ⟨rfl, -⟩ := fits
          have bracket : Text.isIdentifierPart '[' = false :=
            isIdentifierPart_of_punctuation (by decide)
          have noSpace := (Space.render_eq_nil_iff _).2 separates.1
          simp [writtenContainer, noSpace, CollectionKind.delimiters, bracket]
      | _ => simp [Form.isValue, Form.isOperand, Form.isWords] at kind

/-- A tree starts with a word where it is written with one. -/
theorem startsIn_written
    {tree : Tree}
    (canonical : tree.IsCanonical)
    (kind : tree.form.isValue = true ∨ tree.form.isWords = true) :
    tree.form.written.startsIn Text.isIdentifierPart = tree.startsWord := by
  have first : (tree.form.written ++ []).takeWhile Text.isIdentifierPart = tree.firstWord :=
    takeWhile_written canonical kind rfl
  rw [List.append_nil] at first
  rw [Tree.startsWord, ← first]
  cases tree.form.written with
  | nil => rfl
  | cons char more => cases inside : Text.isIdentifierPart char <;> simp [Text.startsIn, inside]

/-! ## The first character -/

/-- A value or kept words can start with the character. -/
def opensValue (char : Char) : Bool :=
  Text.isIdentifierPart char || ['-', '"', '\'', '(', '['].contains char

theorem opensValue_of_isDigit
    {char : Char}
    (isDigit : char.isDigit = true) :
    opensValue char = true := by
  rw [opensValue, Text.isIdentifierPart_of_isDigit isDigit, Bool.true_or]

theorem startsIn_opensValue_of_isName
    {name : Text}
    (isName : isName name = true) :
    name.startsIn opensValue = true := by
  refine Text.startsIn_of_startsIn (fun starts => ?_) (isName_iff.1 isName).1
  rw [opensValue, Text.isIdentifierPart_of_isIdentifierStart starts, Bool.true_or]

theorem startsIn_opensValue_of_literal
    {source : Text}
    (kind : (isLiteralWord source || isNumber source || isQuoted source) = true) :
    source.startsIn opensValue = true := by
  simp only [Bool.or_eq_true] at kind
  obtain (isWord | isNumber) | isQuoted := kind
  · simp only [isLiteralWord, Bool.or_eq_true, decide_eq_true_eq] at isWord
    obtain (rfl | rfl) | rfl := isWord <;> decide
  · cases source with
    | nil => cases isNumber
    | cons first rest =>
        simp only [Java.isNumber, Bool.and_eq_true] at isNumber
        have starts := isNumber.1
        unfold Parser.isNumberStart at starts
        split at starts
        · next equal =>
            obtain ⟨rfl, -⟩ := List.cons.inj equal
            have opens : opensValue '-' = true := by decide
            exact opens
        · next equal =>
            obtain ⟨rfl, -⟩ := List.cons.inj equal
            exact opensValue_of_isDigit starts
        · cases starts
  · cases source with
    | nil => cases isQuoted
    | cons first rest =>
        simp only [Java.isQuoted, Bool.and_eq_true, Bool.or_eq_true, decide_eq_true_eq] at isQuoted
        have double : opensValue '"' = true := by decide
        have single : opensValue '\'' = true := by decide
        obtain ⟨rfl | rfl, -⟩ := isQuoted
        · exact double
        · exact single

/-- The first character of a written value or of written words. -/
theorem startsIn_opensValue
    {tree : Tree}
    (canonical : tree.IsCanonical)
    (kind : tree.form.isValue = true ∨ tree.form.isWords = true) :
    tree.form.written.startsIn opensValue = true := by
  induction tree using Tree.induction with
  | step head form ih =>
      obtain ⟨⟨fits, separates, -, -, -, -⟩, below⟩ := (Tree.isCanonical_iff _).1 canonical
      cases form with
      | identifier name typeTag => simpa using startsIn_opensValue_of_isName fits.1
      | literal source typeTag => simpa using startsIn_opensValue_of_literal fits.1
      | unknown text =>
          obtain ⟨first, more, isName, -, -, rfl⟩ := fits
          simpa using Text.startsIn_append (startsIn_opensValue_of_isName isName) _
      | assignment target value typeTag =>
          have first := ih target (by simp [Form.children])
            (below target (by simp [Form.children])) (.inl (Form.isValue_of_isOperand fits.1))
          simpa [Tree.written_of_isEmpty separates] using Text.startsIn_append first _
      | binary left operator right typeTag =>
          have first := ih left (by simp [Form.children]) (below left (by simp [Form.children]))
            (.inl (Form.isValue_of_isOperand fits.1.1))
          simpa [Tree.written_of_isEmpty separates.1] using Text.startsIn_append first _
      | fieldAccess target name typeTag =>
          have first := ih target (by simp [Form.children])
            (below target (by simp [Form.children])) (.inl (Form.isValue_of_isChain fits.1))
          simpa [Tree.written_of_isEmpty separates.1] using Text.startsIn_append first _
      | call receiver name arguments typeTag =>
          cases receiver with
          | some receiver =>
              have first := ih receiver.element (by simp [Form.children])
                (below receiver.element (by simp [Form.children]))
                (.inl (Form.isValue_of_isChain fits.1.1))
              simpa [writtenReceiver, Tree.written_of_isEmpty separates.1] using
                Text.startsIn_append first _
          | none =>
              have first := ih name (by simp [Form.children]) (below name (by simp [Form.children]))
                (.inr (Form.isWords_of_isIdentifier fits.2.1))
              simpa [writtenReceiver, Tree.written_of_isEmpty separates.1] using
                Text.startsIn_append first _
      | parentheses inner =>
          rw [Tree.form_node, Form.written_parentheses]
          have opens : opensValue '(' = true := by decide
          exact opens
      | collection kind elements typeTag =>
          obtain ⟨rfl, -⟩ := fits
          have opens : opensValue '[' = true := by decide
          have noSpace := (Space.render_eq_nil_iff _).2 separates.1
          rw [Tree.form_node, Form.written_collection, writtenContainer, noSpace]
          exact opens
      | _ => simp [Form.isValue, Form.isOperand, Form.isWords] at kind

/-- Nothing that a value starts with is a blank, or one of the signs that stand between values. -/
theorem ne_of_opensValue
    {char : Char}
    (opens : opensValue char = true) :
    Text.isBlank char = false ∧ char ∉ ['/', '*', '=', ')', ']', ',', ';', '.', '\x7b', '\x7d'] := by
  constructor
  · refine Bool.eq_false_iff.2 fun blank => ?_
    rw [opensValue, Text.isIdentifierPart_of_isBlank blank, Bool.false_or] at opens
    have noBlank : ['-', '"', '\'', '(', '['].any Text.isBlank = false := by decide
    rw [Text.eq_false_of_mem noBlank (List.contains_iff_mem.1 opens)] at blank
    cases blank
  · intro member
    have noneOpens : ['/', '*', '=', ')', ']', ',', ';', '.', '\x7b', '\x7d'].any opensValue = false := by
      decide
    rw [Text.eq_false_of_mem noneOpens member] at opens
    cases opens

/-- Text that starts like a value goes on with a token. -/
theorem isSolid_of_opensValue
    {text : Text}
    (starts : text.startsIn opensValue = true) :
    text.isSolid = true := by
  cases text with
  | nil => rfl
  | cons first rest =>
      obtain ⟨notBlank, notSign⟩ := ne_of_opensValue starts
      refine Text.isSolid_cons notBlank (fun isSlash => notSign ?_) rest
      simp [isSlash]

/-- A sign that no value starts with does not come next. -/
theorem dropStart?_of_opensValue
    {text : Text}
    (starts : text.startsIn opensValue = true)
    {sign : Char}
    (member : sign ∈ ['/', '*', '=', ')', ']', ',', ';', '.', '\x7b', '\x7d'])
    (more : Text) :
    Text.dropStart? (sign :: more) text = none := by
  cases text with
  | nil => rfl
  | cons first rest =>
      have other : sign ≠ first := by
        rintro rfl
        exact (ne_of_opensValue starts).2 member
      simp [Text.dropStart?, other]

end Java
end Lossless
