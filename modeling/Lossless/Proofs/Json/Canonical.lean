import Lossless.Json.Grammar
import Lossless.Json.Pieces
import Lossless.Proofs.Text.Runs

/-!
# Canonical data trees

A data tree is canonical when it looks as if it had been read from a text: its tokens are read as what they stand
for, its children are of the kinds that the grammar puts there, and its spaces are gaps. An empty element stands at
the end of a list alone, without a space after it, and the space before a key stands before its member.
-/

namespace Lossless
namespace Json

/-!
## Scanned strings

The rest of a string is scanned up to its closing quote, and what comes after the quote makes no difference. The
state of the scanner inside a code point remembers where the code point started; that is for errors alone.
-/

section Scanned

variable {text rest : Text}

/-- The same state of a scanner, but for what only an error tells. -/
def StringState.Alike : StringState -> StringState -> Prop
  | plain, plain => True
  | escaped, escaped => True
  | codePoint bytes digits _, codePoint bytes' digits' _ => bytes = bytes' ∧ digits = digits'
  | _, _ => False

/-- A text is scanned as the rest of a string, whatever comes after it. -/
def Scans
    (state : StringState)
    (body value : Text) : Prop :=
  forall other more, state.Alike other -> scanString other (body ++ more) = .ok (value, more)

/-! ### What a scanner makes of a character -/

theorem scanString_plain
    (first : Char)
    (rest : Text) :
    scanString .plain (first :: rest) =
      if first = '"' then .ok ([], rest)
      else if first = '\\' then scanString .escaped rest
      else if first = '\n' then .error ⟨.newlineInString, rest⟩
      else prepend first <$> scanString .plain rest := rfl

theorem scanString_escaped
    (first : Char)
    (rest : Text) :
    scanString .escaped (first :: rest) =
      if first = 'u' then scanString (.codePoint 4 [] rest) rest
      else prepend (unescape first) <$> scanString .plain rest := rfl

theorem scanString_codePoint
    (bytes : Nat)
    (digits opened : Text)
    (first : Char)
    (rest : Text) :
    scanString (.codePoint bytes digits opened) (first :: rest) =
      if bytes < first.utf8Size then .error ⟨.truncatedEscape, opened⟩
      else if bytes = first.utf8Size then
        prepend (decodeCodePoint (first :: digits).reverse) <$> scanString .plain rest
      else scanString (.codePoint (bytes - first.utf8Size) (first :: digits) opened) rest := rfl

/-! ### Scanned bodies -/

theorem prepend_eq_ok
    {char : Char}
    {scanned : Except Fault ScannedString}
    {value : Text} :
    prepend char <$> scanned = .ok (value, rest) ↔
      exists tail, scanned = .ok (tail, rest) ∧ value = char :: tail := by
  rcases scanned with fault | ⟨tail, left⟩
  · constructor
    · rintro ⟨⟩
    · rintro ⟨tail, ⟨⟩, -⟩
  · constructor
    · rintro ⟨⟩
      exact ⟨tail, rfl, rfl⟩
    · rintro ⟨tail, ⟨⟩, rfl⟩
      rfl

namespace Scans

variable {first : Char} {body value : Text} {bytes : Nat} {digits opened : Text}

theorem close : Scans .plain ['"'] [] := by
  intro other more alike
  cases other <;> cases alike
  rfl

theorem plain
    (noQuote : first ≠ '"')
    (noBackslash : first ≠ '\\')
    (noFeed : first ≠ '\n')
    (scans : Scans .plain body value) :
    Scans .plain (first :: body) (first :: value) := by
  intro other more alike
  cases other <;> cases alike
  rw [List.cons_append, scanString_plain, if_neg noQuote, if_neg noBackslash, if_neg noFeed]
  exact prepend_eq_ok.2 ⟨value, scans .plain more trivial, rfl⟩

theorem backslash (scans : Scans .escaped body value) :
    Scans .plain ('\\' :: body) value := by
  intro other more alike
  cases other <;> cases alike
  exact scans .escaped more trivial

theorem escaped
    (noCodePoint : first ≠ 'u')
    (scans : Scans .plain body value) :
    Scans .escaped (first :: body) (unescape first :: value) := by
  intro other more alike
  cases other <;> cases alike
  rw [List.cons_append, scanString_escaped, if_neg noCodePoint]
  exact prepend_eq_ok.2 ⟨value, scans .plain more trivial, rfl⟩

theorem codePoint (scans : Scans (.codePoint 4 [] opened) body value) :
    Scans .escaped ('u' :: body) value := by
  intro other more alike
  cases other <;> cases alike
  exact scans (.codePoint 4 [] (body ++ more)) more ⟨rfl, rfl⟩

theorem digit
    (fewer : first.utf8Size < bytes)
    (scans : Scans (.codePoint (bytes - first.utf8Size) (first :: digits) opened) body value) :
    Scans (.codePoint bytes digits opened) (first :: body) value := by
  intro other more alike
  cases other with
  | codePoint bytes' digits' opened' =>
      obtain ⟨rfl, rfl⟩ := alike
      rw [List.cons_append, scanString_codePoint, if_neg (Nat.not_lt_of_lt fewer), if_neg (Nat.ne_of_gt fewer)]
      exact scans _ more ⟨rfl, rfl⟩
  | _ => cases alike

theorem lastDigit
    (last : bytes = first.utf8Size)
    (scans : Scans .plain body value) :
    Scans (.codePoint bytes digits opened) (first :: body)
      (decodeCodePoint (first :: digits).reverse :: value) := by
  intro other more alike
  cases other with
  | codePoint bytes' digits' opened' =>
      obtain ⟨rfl, rfl⟩ := alike
      rw [List.cons_append, scanString_codePoint, if_neg (Nat.not_lt_of_le (Nat.le_of_eq last.symm)), if_pos last]
      exact prepend_eq_ok.2 ⟨value, scans .plain more trivial, rfl⟩
  | _ => cases alike

end Scans

/-- A string is scanned up to its closing quote, whatever comes after it. -/
theorem scans_of_scanString
    {state : StringState}
    {value : Text}
    (scanned : scanString state text = .ok (value, rest)) :
    exists body, text = body ++ rest ∧ Scans state body value := by
  induction text generalizing state value with
  | nil => cases state <;> cases scanned
  | cons first text ih =>
      cases state with
      | plain =>
          rw [scanString_plain] at scanned
          split at scanned
          · next isQuote =>
              cases scanned
              subst isQuote
              exact ⟨['"'], rfl, .close⟩
          · next noQuote =>
              split at scanned
              · next isBackslash =>
                  obtain ⟨body, rfl, scans⟩ := ih scanned
                  subst isBackslash
                  exact ⟨_, rfl, .backslash scans⟩
              · next noBackslash =>
                  split at scanned
                  · cases scanned
                  · next noFeed =>
                      obtain ⟨tail, inner, rfl⟩ := prepend_eq_ok.1 scanned
                      obtain ⟨body, rfl, scans⟩ := ih inner
                      exact ⟨_, rfl, .plain noQuote noBackslash noFeed scans⟩
      | escaped =>
          rw [scanString_escaped] at scanned
          split at scanned
          · next isCodePoint =>
              obtain ⟨body, rfl, scans⟩ := ih scanned
              subst isCodePoint
              exact ⟨_, rfl, .codePoint scans⟩
          · next noCodePoint =>
              obtain ⟨tail, inner, rfl⟩ := prepend_eq_ok.1 scanned
              obtain ⟨body, rfl, scans⟩ := ih inner
              exact ⟨_, rfl, .escaped noCodePoint scans⟩
      | codePoint bytes digits opened =>
          rw [scanString_codePoint] at scanned
          split at scanned
          · cases scanned
          · next enough =>
              split at scanned
              · next last =>
                  obtain ⟨tail, inner, rfl⟩ := prepend_eq_ok.1 scanned
                  obtain ⟨body, rfl, scans⟩ := ih inner
                  exact ⟨_, rfl, .lastDigit last scans⟩
              · next notLast =>
                  obtain ⟨body, rfl, scans⟩ := ih scanned
                  exact ⟨_, rfl, .digit (by omega) scans⟩

end Scanned

/-! ## Tokens -/

/-- Can start a number. -/
def isNumberStart (char : Char) : Bool :=
  char = '-' || char.isDigit

/-- A text that is read as a value. -/
def Scalar.IsWrittenAs : Scalar -> Text -> Prop
  | string text, source => exists body, source = '"' :: body ∧ Scans .plain body text
  | number value, source =>
      source.startsIn isNumberStart = true ∧ source.all Parser.isNumberPart = true ∧
        Binary64.ofText? source = some value
  | word, source => source = word.render

/-- A key without quotes, as it is read. -/
def IsKeyName (name : Text) : Prop :=
  name.startsIn Text.isIdentifierStart = true ∧ name.all Text.isIdentifierPart = true

/-! ## Kinds -/

namespace Form

/-- Can stand where a value is read. -/
def isValue : Form α -> Bool
  | object _ | array _ | literal .. => true
  | _ => false

def isMember : Form α -> Bool
  | member .. => true
  | _ => false

/-- Can stand before a colon. -/
def isKey : Form α -> Bool
  | literal _ (.string _) | identifier _ => true
  | _ => false

end Form

/-- An element of a list, or the empty one after its last comma. -/
structure FitsElement
    (test : Form Tree -> Bool)
    (padded : RightPadded Tree) : Prop where
  unmarked : padded.markers.toList = []
  kind : test padded.element.form = true ∨ padded.element.form = .empty ∧ padded.after.isEmpty = true

/-- The elements of a list; only the last can be empty. -/
structure FitElements
    (test : Form Tree -> Bool)
    (list : List (RightPadded Tree)) : Prop where
  nonempty : list ≠ []
  each : forall padded, padded ∈ list -> FitsElement test padded
  inner : forall padded, padded ∈ list.dropLast -> test padded.element.form = true

namespace FitElements

variable {test : Form Tree -> Bool} {first : RightPadded Tree} {rest : List (RightPadded Tree)}

theorem singleton (fits : FitsElement test first) : FitElements test [first] where
  nonempty := List.cons_ne_nil _ _
  each := List.forall_mem_singleton.2 fits
  inner := nofun

theorem cons
    (unmarked : first.markers.toList = [])
    (kind : test first.element.form = true)
    (others : FitElements test rest) :
    FitElements test (first :: rest) where
  nonempty := List.cons_ne_nil _ _
  each := List.forall_mem_cons.2 ⟨⟨unmarked, .inl kind⟩, others.each⟩
  inner := by
    rw [List.dropLast_cons_of_ne_nil others.nonempty]
    exact List.forall_mem_cons.2 ⟨kind, others.inner⟩

/-- An element with another one behind it is not empty. -/
theorem head
    (fits : FitElements test (first :: rest))
    (more : rest ≠ []) :
    test first.element.form = true := by
  apply fits.inner
  rw [List.dropLast_cons_of_ne_nil more]
  exact List.mem_cons_self

theorem tail
    (fits : FitElements test (first :: rest))
    (more : rest ≠ []) :
    FitElements test rest where
  nonempty := more
  each := fun padded member => fits.each padded (List.mem_cons_of_mem _ member)
  inner := by
    intro padded member
    apply fits.inner
    rw [List.dropLast_cons_of_ne_nil more]
    exact List.mem_cons_of_mem _ member

/-- Some elements of a list, in their order, are the elements of a list again. -/
theorem sublist
    {kept list : List (RightPadded Tree)}
    (fits : FitElements test list)
    (isSublist : kept.Sublist list)
    (nonempty : kept ≠ []) :
    FitElements test kept where
  nonempty := nonempty
  each := fun padded member => fits.each padded (isSublist.subset member)
  inner := by
    have dropped : kept.dropLast.Sublist list.dropLast := by
      rw [<- List.reverse_sublist, <- List.tail_reverse, <- List.tail_reverse]
      exact (List.reverse_sublist.2 isSublist).tail
    exact fun padded member => fits.inner padded (dropped.subset member)

end FitElements

namespace Form

/-- The children are of the kinds that the grammar puts there, and tokens are read as what they stand for. -/
def Fits : Form Tree -> Prop
  | document _ value _ => value.form.isValue = true
  | object members => FitElements isMember members
  | member key value =>
      key.markers.toList = [] ∧ key.element.form.isKey = true ∧ key.element.leading.isEmpty = true ∧
        value.form.isValue = true
  | array values => FitElements isValue values
  | literal source value => value.IsWrittenAs source
  | identifier name => IsKeyName name
  | empty => True

/-- The spaces beside the parts of a node, but for the one at the end of a document. -/
def gaps : Form α -> List Space
  | object members => members.map fun padded => padded.after
  | member key _ => [key.after]
  | array values => values.map fun padded => padded.after
  | document .. | literal .. | identifier _ | empty => []

/-- The space at the end of a document. -/
def eof? : Form α -> Option Space
  | document _ _ eof => some eof
  | _ => none

/-- The condition on the parts of one node of a canonical tree. -/
structure IsCanonical (form : Form Tree) : Prop where
  fits : form.Fits
  gaps : forall space, space ∈ form.gaps -> space.IsGap
  eof : forall space, form.eof? = some space -> space.IsGapTo true
  leading : forall child, child ∈ form.children -> child.leading.IsGap
  unmarked : forall child, child ∈ form.children -> child.markers.toList = []

end Form

namespace Tree

@[simp] theorem form_node
    (head : Head)
    (form : Form Tree) :
    (node head form).form = form := rfl

@[simp] theorem leading_node
    (head : Head)
    (form : Form Tree) :
    (node head form).leading = head.leading := rfl

@[simp] theorem form_buildAfter
    (leading : Space)
    (form : Form Tree) :
    (buildAfter leading form).form = form := rfl

@[simp] theorem leading_buildAfter
    (leading : Space)
    (form : Form Tree) :
    (buildAfter leading form).leading = leading := rfl

@[simp] theorem form_build (form : Form Tree) : (build form).form = form := rfl

@[simp] theorem leading_build (form : Form Tree) : (build form).leading = .empty := rfl

/-- Every node looks as if it had been read from a text. -/
def IsCanonical (tree : Tree) : Prop :=
  forall node, node ∈ tree.nodes -> node.form.IsCanonical

theorem isCanonical_iff (tree : Tree) :
    tree.IsCanonical ↔
      tree.form.IsCanonical ∧ forall child, child ∈ tree.form.children -> child.IsCanonical := by
  obtain ⟨head, form⟩ := tree
  unfold IsCanonical
  rw [nodes_node]
  simp only [List.mem_cons, List.mem_flatMap, forall_eq_or_imp, form_node]
  constructor
  · rintro ⟨atRoot, below⟩
    exact ⟨atRoot, fun child member node inside => below node ⟨child, member, inside⟩⟩
  · rintro ⟨atRoot, below⟩
    refine ⟨atRoot, ?_⟩
    rintro node ⟨child, member, inside⟩
    exact below child member node inside

/-- A canonical tree that can be a child in a canonical tree. -/
structure IsPart (tree : Tree) : Prop where
  leading : tree.leading.IsGap
  unmarked : tree.markers.toList = []
  canonical : tree.IsCanonical

/-- A tree is canonical when its form is, all children being parts. -/
theorem isCanonical_of_parts
    {tree : Tree}
    (fits : tree.form.Fits)
    (gaps : forall space, space ∈ tree.form.gaps -> space.IsGap)
    (eof : forall space, tree.form.eof? = some space -> space.IsGapTo true)
    (parts : forall child, child ∈ tree.form.children -> child.IsPart) :
    tree.IsCanonical := by
  refine (isCanonical_iff tree).2 ⟨⟨fits, gaps, eof, ?_, ?_⟩, ?_⟩
  · exact fun child member => (parts child member).leading
  · exact fun child member => (parts child member).unmarked
  · exact fun child member => (parts child member).canonical

/-- The children of a canonical tree are parts. -/
theorem IsCanonical.part
    {tree child : Tree}
    (canonical : tree.IsCanonical)
    (member : child ∈ tree.form.children) :
    child.IsPart := by
  obtain ⟨atRoot, below⟩ := (isCanonical_iff tree).1 canonical
  exact ⟨atRoot.leading child member, atRoot.unmarked child member, below child member⟩

/-- The condition on the root of a canonical tree. -/
theorem IsCanonical.root
    {tree : Tree}
    (canonical : tree.IsCanonical) :
    tree.form.IsCanonical :=
  ((isCanonical_iff tree).1 canonical).1

end Tree

end Json
end Lossless
