import Lossless.Proofs.Json.Written
import Lossless.Proofs.Json.Sound

/-!
# String tokens

Whatever a source looks like, every literal of its document is read from its own text. A string token is closed when
nothing between its quotes ends it: no line feed, no quote without a backslash of its own, and four hexadecimal digits
in every code point. A scanner jumps over the bytes of a code point and over the character behind a backslash, so that
it depends on these units whether a token is closed.
-/

namespace Lossless
namespace Json

/-!
## Units of a string

Between its quotes a string is a sequence of units: a character that stands for itself, a backslash and a character, or
a backslash, the letter u and the four bytes of a code point. Each unit stands for one character. A scanner reads just
the sequences of units up to a quote.
-/

section Units

variable {text rest : Text}

/-- A unit of a string, between the quotes. -/
inductive StringUnit
  | plain (char : Char)
  /-- A backslash and a character. -/
  | escape (char : Char)
  /-- A backslash, the letter u, and what is taken for the digits of a code point. -/
  | codePoint (digits : Text)

namespace StringUnit

/-- A unit as it is written. -/
def written : StringUnit -> Text
  | plain char => [char]
  | escape char => ['\\', char]
  | codePoint digits => '\\' :: 'u' :: digits

/-- The character that a unit stands for. -/
def value : StringUnit -> Char
  | plain char => char
  | escape char => unescape char
  | codePoint digits => decodeCodePoint digits

/-- A scanner takes it for a unit. -/
def IsScanned : StringUnit -> Prop
  | plain char => char ≠ '"' ∧ char ≠ '\\' ∧ char ≠ '\n'
  | escape char => char ≠ 'u'
  | codePoint digits => Text.byteLength digits = 4

end StringUnit

/-- Units between quotes. -/
def quoted (units : List StringUnit) : Text :=
  '"' :: (units.flatMap StringUnit.written ++ ['"'])

/-! ### Scanning a unit -/

section Unit

variable {body value digits opened : Text}

/-- The bytes of a code point are scanned to the last one. -/
theorem Scans.allDigits
    {more : Text}
    (scans : Scans .plain body value)
    (some : more ≠ []) :
    Scans (.codePoint (Text.byteLength more) digits opened) (more ++ body)
      (decodeCodePoint (digits.reverse ++ more) :: value) := by
  induction more generalizing digits with
  | nil => exact absurd rfl some
  | cons first more ih =>
      rw [Text.byteLength_cons, List.cons_append, List.append_cons, <- List.reverse_cons]
      by_cases isLast : more = []
      · subst isLast
        rw [List.append_nil]
        exact .lastDigit (Nat.add_zero _) scans
      · have positive : 0 < Text.byteLength more := by
          obtain ⟨second, others, rfl⟩ := List.exists_cons_of_ne_nil isLast
          have := second.utf8Size_pos
          rw [Text.byteLength_cons]
          omega
        refine .digit (Nat.lt_add_of_pos_right positive) ?_
        rw [Nat.add_sub_cancel_left]
        exact ih isLast

/-- A unit before what is scanned is scanned for the character that it stands for. -/
theorem Scans.unit
    {unit : StringUnit}
    (isScanned : unit.IsScanned)
    (scans : Scans .plain body value) :
    Scans .plain (unit.written ++ body) (unit.value :: value) := by
  cases unit with
  | plain char =>
      obtain ⟨noQuote, noBackslash, noFeed⟩ := isScanned
      exact .plain noQuote noBackslash noFeed scans
  | escape char => exact .backslash (.escaped isScanned scans)
  | codePoint digits =>
      have four : Text.byteLength digits = 4 := isScanned
      have some : digits ≠ [] := by
        rintro rfl
        cases four
      have scansDigits : Scans (.codePoint (Text.byteLength digits) [] []) (digits ++ body)
          (decodeCodePoint digits :: value) := scans.allDigits some
      rw [four] at scansDigits
      exact .backslash (.codePoint scansDigits)

/-- Where a code point is scanned, its bytes are the first four of the text. -/
theorem exists_digits_of_scanString
    {bytes : Nat}
    (positive : 0 < bytes)
    (scanned : scanString (.codePoint bytes digits opened) text = .ok (value, rest)) :
    exists more behind tail, text = more ++ behind ∧ Text.byteLength more = bytes ∧
      value = decodeCodePoint (digits.reverse ++ more) :: tail ∧ scanString .plain behind = .ok (tail, rest) := by
  induction text generalizing bytes digits with
  | nil => cases scanned
  | cons first text ih =>
      rw [scanString_codePoint] at scanned
      split at scanned
      · cases scanned
      · next fits =>
          split at scanned
          · next isLast =>
              obtain ⟨tail, scannedRest, rfl⟩ := prepend_eq_ok.1 scanned
              exact ⟨[first], text, tail, rfl, isLast.symm, by rw [List.reverse_cons], scannedRest⟩
          · next notLast =>
              obtain ⟨more, behind, tail, rfl, length, rfl, scannedRest⟩ := ih (by omega) scanned
              refine ⟨first :: more, behind, tail, rfl, ?_, ?_, scannedRest⟩
              · rw [Text.byteLength_cons, length]
                omega
              · rw [List.reverse_cons, List.append_assoc, List.singleton_append]

end Unit

/-! ### Scanning units -/

/-- Units are scanned up to the quote behind them, each for the character that it stands for. -/
theorem scans_units
    {units : List StringUnit}
    (areScanned : forall unit, unit ∈ units -> unit.IsScanned) :
    Scans .plain (units.flatMap StringUnit.written ++ ['"']) (units.map StringUnit.value) := by
  induction units with
  | nil => exact .close
  | cons unit units ih =>
      obtain ⟨isScanned, areOthers⟩ := List.forall_mem_cons.1 areScanned
      rw [List.flatMap_cons, List.append_assoc]
      exact .unit isScanned (ih areOthers)

/-- What a scanner reads is a sequence of units. -/
theorem exists_units_of_scanString
    {value : Text}
    (scanned : scanString .plain text = .ok (value, rest)) :
    exists units : List StringUnit, (forall unit, unit ∈ units -> unit.IsScanned) ∧
      text = units.flatMap StringUnit.written ++ '"' :: rest ∧ value = units.map StringUnit.value := by
  -- a code point takes several characters at once, so the induction is on the length of the text
  induction length : text.length using Nat.strongRecOn generalizing text value with
  | ind bound ih =>
      subst length
      have later (unit : StringUnit) {behind tail : Text} (isScanned : unit.IsScanned)
          (whole : text = unit.written ++ behind) (scannedRest : scanString .plain behind = .ok (tail, rest)) :
          exists units : List StringUnit, (forall unit, unit ∈ units -> unit.IsScanned) ∧
            text = units.flatMap StringUnit.written ++ '"' :: rest ∧
              unit.value :: tail = units.map StringUnit.value := by
        have shorter : behind.length < text.length := by
          rw [whole, List.length_append]
          cases unit <;> simp [StringUnit.written]
        obtain ⟨units, areScanned, rfl, rfl⟩ := ih behind.length shorter scannedRest rfl
        exact ⟨unit :: units, List.forall_mem_cons.2 ⟨isScanned, areScanned⟩, by rw [whole]; simp, rfl⟩
      cases text with
      | nil => cases scanned
      | cons first text =>
          rw [scanString_plain] at scanned
          split at scanned
          · next isQuote =>
              cases scanned
              exact ⟨[], nofun, by rw [isQuote]; rfl, rfl⟩
          · next noQuote =>
              split at scanned
              · next isBackslash =>
                  subst isBackslash
                  cases text with
                  | nil => cases scanned
                  | cons second text =>
                      rw [scanString_escaped] at scanned
                      split at scanned
                      · next isCodePoint =>
                          obtain ⟨digits, behind, tail, rfl, four, rfl, scannedRest⟩ :=
                            exists_digits_of_scanString (Nat.succ_pos 3) scanned
                          exact later (.codePoint digits) four (by rw [isCodePoint]; rfl) scannedRest
                      · next noCodePoint =>
                          obtain ⟨tail, scannedRest, rfl⟩ := prepend_eq_ok.1 scanned
                          exact later (.escape second) noCodePoint rfl scannedRest
              · next noBackslash =>
                  split at scanned
                  · cases scanned
                  · next noFeed =>
                      obtain ⟨tail, scannedRest, rfl⟩ := prepend_eq_ok.1 scanned
                      exact later (.plain first) ⟨noQuote, noBackslash, noFeed⟩ rfl scannedRest

/-- A text is read as a string exactly when it is a sequence of units between quotes. -/
theorem isWrittenAs_string_iff
    {value source : Text} :
    (Scalar.string value).IsWrittenAs source ↔
      exists units : List StringUnit, (forall unit, unit ∈ units -> unit.IsScanned) ∧
        source = quoted units ∧ value = units.map StringUnit.value := by
  constructor
  · rintro ⟨body, rfl, scans⟩
    have scanned : scanString .plain (body ++ []) = .ok (value, []) := scans .plain [] trivial
    obtain ⟨units, areScanned, whole, isValue⟩ := exists_units_of_scanString scanned
    rw [List.append_nil] at whole
    exact ⟨units, areScanned, congrArg ('"' :: ·) whole, isValue⟩
  · rintro ⟨units, areScanned, rfl, rfl⟩
    exact ⟨_, rfl, scans_units areScanned⟩

end Units

/-!
## Tokens and their units

What is read as a literal is a token of the source. A token of a string is closed when its units are.
-/

open Lossless.Parser
open Json.Parser

variable {text rest : Text} {leading : Space} {tree : Tree}

/-! ### Literals and their texts -/

/-- A literal is read from its text. -/
def Form.IsToken : Form α -> Prop
  | literal source value => value.IsWrittenAs source
  | _ => True

namespace Tree

theorem forall_mem_nodes_iff
    {holds : Tree -> Prop}
    (tree : Tree) :
    (forall node, node ∈ tree.nodes -> holds node) ↔
      holds tree ∧ forall child, child ∈ tree.form.children -> forall node, node ∈ child.nodes -> holds node := by
  obtain ⟨head, form⟩ := tree
  rw [nodes_node]
  simp only [List.mem_cons, List.mem_flatMap, forall_eq_or_imp, form_node]
  constructor
  · rintro ⟨atRoot, below⟩
    exact ⟨atRoot, fun child member node inside => below node ⟨child, member, inside⟩⟩
  · rintro ⟨atRoot, below⟩
    refine ⟨atRoot, ?_⟩
    rintro node ⟨child, member, inside⟩
    exact below child member node inside

/-- Every literal in the tree is read from its text. -/
def HasTokens (tree : Tree) : Prop :=
  forall node, node ∈ tree.nodes -> node.form.IsToken

theorem hasTokens_iff (tree : Tree) :
    tree.HasTokens ↔ tree.form.IsToken ∧ forall child, child ∈ tree.form.children -> child.HasTokens :=
  forall_mem_nodes_iff tree

/-- A node that is no literal has the tokens of its children. -/
theorem hasTokens_of_children
    (isToken : tree.form.IsToken)
    (children : forall child, child ∈ tree.form.children -> child.HasTokens) :
    tree.HasTokens :=
  (hasTokens_iff tree).2 ⟨isToken, children⟩

end Tree

/-- A token that was read as a node of its own. -/
theorem ReadsToken.hasTokens
    {form : Form Tree}
    (reads : ReadsToken text form rest)
    (isForm : tree.form = form) :
    tree.HasTokens := by
  apply Tree.hasTokens_of_children <;> rw [isForm]
  · cases form with
    | literal source value => exact reads.fits
    | _ => trivial
  · simp [reads.isLeaf.1]

/-- A parser reads trees whose literals are read from their texts. -/
def ReadsTokens (element : Space -> Parser Tree) : Prop :=
  forall {leading text tree rest}, element leading text = .ok (tree, rest) -> tree.HasTokens

section Parsers

variable {element : Space -> Parser Tree} (reads : ReadsTokens element)

include reads

theorem elements_hasTokens
    {close : Text}
    {bound : Nat}
    {list : List (RightPadded Tree)}
    (read : elements close element bound text = .ok (list, rest)) :
    forall child, child ∈ RightPadded.elements list -> child.HasTokens := by
  induction bound generalizing text rest list with
  | zero => simp [elements] at read
  | succ bound ih =>
      unfold elements at read
      simp only [bind_eq_ok] at read
      obtain ⟨leading, body, -, isClosed, _, -, read⟩ := read
      split at read
      · obtain ⟨rfl, -⟩ := pure_eq_ok.1 read
        exact List.forall_mem_singleton.2 (Tree.hasTokens_of_children trivial (List.forall_mem_nil _))
      · simp only [bind_eq_ok] at read
        obtain ⟨first, _, readFirst, after, _, -, isLast, _, -, read⟩ := read
        split at read
        · obtain ⟨rfl, -⟩ := pure_eq_ok.1 read
          exact List.forall_mem_singleton.2 (reads readFirst)
        · simp only [bind_eq_ok] at read
          obtain ⟨isComma, _, -, read⟩ := read
          split at read
          · simp only [bind_eq_ok, pure_eq_ok] at read
            obtain ⟨others, _, readOthers, rfl, -⟩ := read
            exact List.forall_mem_cons.2 ⟨reads readFirst, ih readOthers⟩
          · simp at read

theorem delimited_hasTokens
    {opening close : Text}
    {list : List (RightPadded Tree)}
    (read : delimited opening close element text = .ok (list, rest)) :
    forall child, child ∈ RightPadded.elements list -> child.HasTokens := by
  unfold delimited at read
  rw [bind_eq_ok] at read
  obtain ⟨_, body, -, read⟩ := read
  rw [bind_get] at read
  exact elements_hasTokens reads read

theorem member_readsTokens : ReadsTokens (member element) := by
  intro leading text tree rest read
  unfold member at read
  simp only [bind_eq_ok, pure_eq_ok] at read
  obtain ⟨key, _, readKey, after, _, -, _, _, -, before, _, -, value, _, readValue, rfl, -⟩ := read
  refine Tree.hasTokens_of_children trivial (List.forall_mem_cons.2 ⟨?_, List.forall_mem_singleton.2 (reads readValue)⟩)
  exact (key_sound readKey).1.hasTokens rfl

end Parsers

theorem valueWithin_readsTokens (depth : Nat) : ReadsTokens (valueWithin depth) := by
  induction depth with
  | zero =>
      intro leading text tree rest read
      simp [valueWithin] at read
  | succ depth ih =>
      intro leading text tree rest read
      unfold valueWithin at read
      rw [bind_get] at read
      split at read
      · simp only [bind_eq_ok, map_eq_ok, pure_eq_ok] at read
        obtain ⟨_, _, ⟨members, readMembers, rfl⟩, rfl, -⟩ := read
        exact Tree.hasTokens_of_children trivial (delimited_hasTokens (member_readsTokens ih) readMembers)
      · simp only [bind_eq_ok, map_eq_ok, pure_eq_ok] at read
        obtain ⟨_, _, ⟨values, readValues, rfl⟩, rfl, -⟩ := read
        exact Tree.hasTokens_of_children trivial (delimited_hasTokens ih readValues)
      · obtain ⟨form, _, readString, node⟩ := bind_eq_ok.1 read
        obtain ⟨rfl, -⟩ := pure_eq_ok.1 node
        exact (string_sound rfl readString).1.hasTokens rfl
      · split at read
        · next first more _ _ _ starts =>
            obtain ⟨form, _, readNumber, node⟩ := bind_eq_ok.1 read
            obtain ⟨rfl, -⟩ := pure_eq_ok.1 node
            have isStart : Text.startsIn isNumberStart (first :: more) = true := starts
            exact (number_sound isStart readNumber).1.hasTokens rfl
        · obtain ⟨form, _, readWord, node⟩ := bind_eq_ok.1 read
          obtain ⟨rfl, -⟩ := pure_eq_ok.1 node
          exact (word_sound (by simp) readWord).1.hasTokens rfl
      · obtain ⟨form, _, failed, -⟩ := bind_eq_ok.1 read
        simp at failed

/-- The literals of a parsed document are read from their texts. -/
theorem hasTokens_of_parse
    {source : Text}
    {path : Path}
    (parsed : parse source path = .ok tree) :
    tree.HasTokens := by
  unfold parse at parsed
  split at parsed
  · next read =>
      cases parsed
      unfold document at read
      simp only [bind_eq_ok, get_eq_ok] at read
      obtain ⟨_, _, -, _, _, -, value, _, readValue, eof, _, -, _, _, -, read⟩ := read
      split at read
      · obtain ⟨rfl, -⟩ := pure_eq_ok.1 read
        exact Tree.hasTokens_of_children trivial (List.forall_mem_singleton.2 (valueWithin_readsTokens _ readValue))
      · simp at read
  · cases parsed

/-! ### Closed tokens -/

/-- An odd number of backslashes ends the text, so that what comes next is escaped. -/
def IsEscaping (front : Text) : Prop :=
  (front.reverse.takeWhile (· = '\\')).length % 2 = 1

instance (front : Text) : Decidable (IsEscaping front) := inferInstanceAs (Decidable (_ = 1))

def isHexDigit (char : Char) : Bool :=
  (Text.digitIn? 16 char).isSome

/-- The text starts with four hexadecimal digits. -/
def StartsWithDigits (text : Text) : Prop :=
  exists digits more, text = digits ++ more ∧ digits.length = 4 ∧ digits.all isHexDigit = true

/-- Nothing between the quotes of a string ends it. -/
structure IsClosed (inner : Text) : Prop where
  noFeed : '\n' ∉ inner
  noQuote : forall front back, inner = front ++ '"' :: back -> IsEscaping front
  codePoints : forall front back, inner = front ++ 'u' :: back -> IsEscaping front -> StartsWithDigits back

/-- A unit that does not end its token: no line feed behind a backslash, and four digits in a code point. -/
def StringUnit.IsRegular : StringUnit -> Prop
  | plain _ => True
  | escape char => char ≠ '\n'
  | codePoint digits => digits.length = 4 ∧ digits.all isHexDigit = true

theorem isEscaping_concat
    (front : Text)
    (char : Char) :
    IsEscaping (front ++ [char]) ↔ char = '\\' ∧ ¬IsEscaping front := by
  unfold IsEscaping
  rw [List.reverse_append, List.reverse_singleton, List.singleton_append, List.takeWhile_cons]
  by_cases isBackslash : char = '\\'
  · simp only [isBackslash, decide_true, if_true, List.length_cons, true_and]
    omega
  · simp [isBackslash]

/-- What may stand between the quotes after a text, with what comes behind it. -/
def Allows
    (front : Text)
    (char : Char)
    (back : Text) : Prop :=
  char ≠ '\n' ∧ (char = '"' -> IsEscaping front) ∧ (char = 'u' -> IsEscaping front -> StartsWithDigits back)

/-- A part of what stands between quotes is allowed there, after what comes before it. -/
def ClosedAfter (before inner : Text) : Prop :=
  forall front char back, inner = front ++ char :: back -> Allows (before ++ front) char back

theorem isClosed_iff_closedAfter
    {inner : Text} :
    IsClosed inner ↔ ClosedAfter [] inner := by
  constructor
  · rintro ⟨noFeed, noQuote, codePoints⟩ front char back whole
    refine ⟨?_, ?_, ?_⟩
    · rintro rfl
      exact noFeed (by simp [whole])
    · rintro rfl
      exact noQuote front back whole
    · rintro rfl
      exact codePoints front back whole
  · intro closed
    refine ⟨fun feed => ?_, fun front back whole => (closed front _ back whole).2.1 rfl,
      fun front back whole => (closed front _ back whole).2.2 rfl⟩
    obtain ⟨front, back, whole⟩ := List.append_of_mem feed
    exact (closed front _ back whole).1 rfl

section Closed

variable {before : Text}

theorem closedAfter_nil : ClosedAfter before [] := by
  intro front char back whole
  simp at whole

theorem closedAfter_cons
    (first : Char)
    (text : Text) :
    ClosedAfter before (first :: text) ↔ Allows before first text ∧ ClosedAfter (before ++ [first]) text := by
  constructor
  · intro closed
    refine ⟨?_, fun front char back whole => ?_⟩
    · simpa using closed [] first text rfl
    · rw [List.append_assoc]
      exact closed (first :: front) char back (by rw [whole]; rfl)
  · rintro ⟨allows, closed⟩ front char back whole
    cases front with
    | nil =>
        obtain ⟨rfl, rfl⟩ := List.cons.inj whole
        rwa [List.append_nil]
    | cons second front =>
        obtain ⟨rfl, rfl⟩ := List.cons.inj whole
        rw [List.append_cons]
        exact closed front char back rfl

/-- Hexadecimal digits may stand everywhere, and the next character is not escaped by them. -/
theorem closedAfter_digits
    {digits : Text}
    (areDigits : digits.all isHexDigit = true)
    (text : Text) :
    ClosedAfter before (digits ++ text) ↔ ClosedAfter (before ++ digits) text := by
  induction digits generalizing before with
  | nil => rw [List.nil_append, List.append_nil]
  | cons first digits ih =>
      obtain ⟨isDigit, areOthers⟩ := Bool.and_eq_true_iff.1 ((List.all_cons ..).symm.trans areDigits)
      have noSign : ['\n', '"', 'u'].any isHexDigit = false := by decide
      have other {sign : Char} (isSign : sign ∈ ['\n', '"', 'u']) : first ≠ sign := by
        rintro rfl
        exact Bool.false_ne_true ((Text.eq_false_of_mem noSign isSign).symm.trans isDigit)
      have allows : Allows before first (digits ++ text) :=
        ⟨other (by simp), fun isQuote => absurd isQuote (other (by simp)),
          fun isLetter => absurd isLetter (other (by simp))⟩
      rw [List.cons_append, closedAfter_cons, ih areOthers, <- List.append_cons]
      exact and_iff_right allows

end Closed

theorem utf8Size_of_isHexDigit
    {char : Char}
    (isDigit : isHexDigit char = true) :
    char.utf8Size = 1 := by
  have low {least greatest : Char} (range : (decide (least ≤ char) && decide (char ≤ greatest)) = true)
      (isLow : greatest.val ≤ 127) : char.val ≤ 127 :=
    UInt32.le_trans (of_decide_eq_true (Bool.and_eq_true_iff.1 range).2) isLow
  apply Char.utf8Size_eq_one_iff.2
  unfold isHexDigit Text.digitIn? at isDigit
  dsimp only at isDigit
  split at isDigit
  · next range => exact low range (by decide)
  · split at isDigit
    · next range => exact low range (by decide)
    · split at isDigit
      · next range => exact low range (by decide)
      · cases isDigit

theorem byteLength_of_isHexDigit
    {digits : Text}
    (areDigits : digits.all isHexDigit = true) :
    Text.byteLength digits = digits.length := by
  induction digits with
  | nil => rfl
  | cons first digits ih =>
      obtain ⟨isDigit, areOthers⟩ := Bool.and_eq_true_iff.1 ((List.all_cons ..).symm.trans areDigits)
      rw [Text.byteLength_cons, utf8Size_of_isHexDigit isDigit, ih areOthers, List.length_cons, Nat.add_comm]

theorem eq_nil_of_byteLength
    {text : Text}
    (none : Text.byteLength text = 0) :
    text = [] := by
  cases text with
  | nil => rfl
  | cons first text =>
      have := first.utf8Size_pos
      rw [Text.byteLength_cons] at none
      omega

/-- Two beginnings of a text that are equally long in bytes are the same. -/
theorem append_inj_of_byteLength
    {left right behind after : Text}
    (whole : left ++ behind = right ++ after)
    (length : Text.byteLength left = Text.byteLength right) :
    left = right := by
  rcases List.append_eq_append_iff.1 whole with ⟨more, isRight, -⟩ | ⟨more, isLeft, -⟩
  · rw [isRight, Text.byteLength_append] at length
    rw [isRight, eq_nil_of_byteLength (by omega : Text.byteLength more = 0), List.append_nil]
  · rw [isLeft, Text.byteLength_append] at length
    rw [isLeft, eq_nil_of_byteLength (by omega : Text.byteLength more = 0), List.append_nil]

/-- The four bytes of a code point start with four digits exactly when they are four digits. -/
theorem startsWithDigits_iff
    {bytes : Text}
    (four : Text.byteLength bytes = 4)
    (text : Text) :
    StartsWithDigits (bytes ++ text) ↔ bytes.length = 4 ∧ bytes.all isHexDigit = true := by
  constructor
  · rintro ⟨digits, more, whole, length, areDigits⟩
    have sameLength : Text.byteLength bytes = Text.byteLength digits := by
      rw [four, byteLength_of_isHexDigit areDigits, length]
    rw [append_inj_of_byteLength whole sameLength]
    exact ⟨length, areDigits⟩
  · rintro ⟨length, areDigits⟩
    exact ⟨bytes, text, rfl, length, areDigits⟩

/-! ### Units of closed tokens -/

/-- A digit is no backslash, so that what comes behind digits is not escaped. -/
theorem not_isEscaping_digits
    {digits : Text}
    (before : Text)
    (areDigits : digits.all isHexDigit = true)
    (some : digits ≠ []) :
    ¬IsEscaping (before ++ digits) := by
  rw [<- List.dropLast_concat_getLast some, <- List.append_assoc, isEscaping_concat]
  rintro ⟨isBackslash, -⟩
  have isDigit := List.all_eq_true.1 areDigits _ (List.getLast_mem some)
  rw [isBackslash] at isDigit
  revert isDigit
  decide

section Unit

variable {before : Text} (notEscaped : ¬IsEscaping before)

include notEscaped

/-- A unit that is not escaped is allowed exactly when it is regular. -/
theorem closedAfter_unit
    {unit : StringUnit}
    (isScanned : unit.IsScanned)
    (text : Text) :
    ClosedAfter before (unit.written ++ text) ↔ unit.IsRegular ∧ ClosedAfter (before ++ unit.written) text := by
  have backslash (text : Text) : Allows before '\\' text := ⟨by decide, by simp, by simp⟩
  have escaping : IsEscaping (before ++ ['\\']) := (isEscaping_concat ..).2 ⟨rfl, notEscaped⟩
  cases unit with
  | plain char =>
      obtain ⟨noQuote, -, noFeed⟩ := isScanned
      have allows : Allows before char text :=
        ⟨noFeed, fun isQuote => absurd isQuote noQuote, fun _ isEscaped => absurd isEscaped notEscaped⟩
      exact (closedAfter_cons char text).trans (and_congr_left' (iff_of_true allows trivial))
  | escape char =>
      have allows : Allows (before ++ ['\\']) char text ↔ char ≠ '\n' :=
        ⟨And.left, fun noFeed => ⟨noFeed, fun _ => escaping, fun isLetter => absurd isLetter isScanned⟩⟩
      calc ClosedAfter before ('\\' :: char :: text)
        _ ↔ ClosedAfter (before ++ ['\\']) (char :: text) :=
            (closedAfter_cons ..).trans (and_iff_right (backslash _))
        _ ↔ char ≠ '\n' ∧ ClosedAfter (before ++ ['\\'] ++ [char]) text :=
            (closedAfter_cons ..).trans (and_congr_left' allows)
        _ ↔ char ≠ '\n' ∧ ClosedAfter (before ++ ['\\', char]) text := by rw [List.append_assoc]; rfl
  | codePoint bytes =>
      have allows : Allows (before ++ ['\\']) 'u' (bytes ++ text) ↔ bytes.length = 4 ∧ bytes.all isHexDigit = true := by
        rw [<- startsWithDigits_iff isScanned text]
        exact ⟨fun allows => allows.2.2 rfl escaping,
          fun starts => ⟨by decide, fun isQuote => absurd isQuote (by decide), fun _ _ => starts⟩⟩
      calc ClosedAfter before ('\\' :: 'u' :: (bytes ++ text))
        _ ↔ ClosedAfter (before ++ ['\\']) ('u' :: (bytes ++ text)) :=
            (closedAfter_cons ..).trans (and_iff_right (backslash _))
        _ ↔ (bytes.length = 4 ∧ bytes.all isHexDigit = true) ∧
              ClosedAfter (before ++ ['\\'] ++ ['u']) (bytes ++ text) :=
            (closedAfter_cons ..).trans (and_congr_left' allows)
        _ ↔ (bytes.length = 4 ∧ bytes.all isHexDigit = true) ∧
              ClosedAfter (before ++ ['\\'] ++ ['u'] ++ bytes) text :=
            and_congr_right fun areDigits => closedAfter_digits areDigits.2 text
        _ ↔ (bytes.length = 4 ∧ bytes.all isHexDigit = true) ∧
              ClosedAfter (before ++ '\\' :: 'u' :: bytes) text := by simp

/-- What comes behind a regular unit is not escaped. -/
theorem not_isEscaping_unit
    {unit : StringUnit}
    (isScanned : unit.IsScanned)
    (isRegular : unit.IsRegular) :
    ¬IsEscaping (before ++ unit.written) := by
  cases unit with
  | plain char =>
      rw [StringUnit.written, isEscaping_concat]
      exact fun escapes => isScanned.2.1 escapes.1
  | escape char =>
      rw [StringUnit.written, List.append_cons, isEscaping_concat, isEscaping_concat]
      exact fun escapes => escapes.2 ⟨rfl, notEscaped⟩
  | codePoint bytes =>
      have some : bytes ≠ [] := by
        rintro rfl
        cases isRegular.1
      rw [StringUnit.written, List.append_cons, List.append_cons]
      exact not_isEscaping_digits _ isRegular.2 some

/-- Units are allowed one after the other exactly when all of them are regular. -/
theorem closedAfter_units
    {units : List StringUnit}
    (areScanned : forall unit, unit ∈ units -> unit.IsScanned) :
    ClosedAfter before (units.flatMap StringUnit.written) ↔ forall unit, unit ∈ units -> unit.IsRegular := by
  induction units generalizing before with
  | nil => exact iff_of_true closedAfter_nil nofun
  | cons unit units ih =>
      obtain ⟨isScanned, areOthers⟩ := List.forall_mem_cons.1 areScanned
      rw [List.flatMap_cons, closedAfter_unit notEscaped isScanned, List.forall_mem_cons]
      -- the next unit is read right only where the one before it is regular
      exact and_congr_right fun isRegular => ih (not_isEscaping_unit notEscaped isScanned isRegular) areOthers

end Unit

/--
A string token of a parsed document is a sequence of units between quotes, which stand for the characters of its value.
It is closed exactly when all its units are regular.
-/
theorem stringToken_isClosed_iff
    (source : Text)
    (path : Path)
    (tree : Tree)
    (parsed : parse source path = .ok tree)
    (node : Tree)
    (isNode : node ∈ tree.nodes)
    (token value : Text)
    (isString : node.form = .literal token (.string value)) :
    exists units : List StringUnit, (forall unit, unit ∈ units -> unit.IsScanned) ∧
      token = quoted units ∧ value = units.map StringUnit.value ∧
      (IsClosed (units.flatMap StringUnit.written) ↔ forall unit, unit ∈ units -> unit.IsRegular) := by
  have isToken : node.form.IsToken := hasTokens_of_parse parsed node isNode
  rw [isString] at isToken
  obtain ⟨units, areScanned, isQuoted, isValue⟩ := isWrittenAs_string_iff.1 isToken
  have notEscaped : ¬IsEscaping [] := by decide
  exact ⟨units, areScanned, isQuoted, isValue, isClosed_iff_closedAfter.trans (closedAfter_units notEscaped areScanned)⟩

/-- A string whose code point has two digits and swallows the closing quote. -/
def runawayToken : Text :=
  "\"\\u12\", \"".toList

/-- The token of a list goes on to the next quote, and it is not closed. -/
theorem stringToken_isClosed_ofRunaway :
    exists tree node value units, parse ('[' :: runawayToken ++ [']']) ⟨"a.json".toList⟩ = .ok tree ∧
      node ∈ tree.nodes ∧ node.form = .literal runawayToken (.string value) ∧ runawayToken = quoted units ∧
      ¬forall unit, unit ∈ units -> unit.IsRegular := by
  have found : ((parse ('[' :: runawayToken ++ [']']) ⟨"a.json".toList⟩).toOption.bind fun tree =>
      tree.nodes[2]?.map fun node => decide (node.form = .literal runawayToken (.string ['\uFFFD', ' ']))) =
        some true := by decide +kernel
  cases parsed : parse ('[' :: runawayToken ++ [']']) ⟨"a.json".toList⟩ with
  | error =>
      rw [parsed] at found
      cases found
  | ok tree =>
      rw [parsed] at found
      obtain ⟨node, isThird, isString⟩ := Option.map_eq_some_iff.1 found
      have isNode : node ∈ tree.nodes := List.mem_of_getElem? isThird
      obtain ⟨units, -, isQuoted, -, isClosedIff⟩ :=
        stringToken_isClosed_iff _ _ tree parsed node isNode _ _ (of_decide_eq_true isString)
      refine ⟨tree, node, _, units, rfl, isNode, of_decide_eq_true isString, isQuoted, fun areRegular => ?_⟩
      have inner : units.flatMap StringUnit.written = "\\u12".toList ++ '"' :: ", ".toList :=
        List.append_cancel_right (List.cons.inj isQuoted).2.symm
      have escapes : IsEscaping "\\u12".toList := (isClosedIff.2 areRegular).noQuote _ _ inner
      revert escapes
      decide

end Json
end Lossless
