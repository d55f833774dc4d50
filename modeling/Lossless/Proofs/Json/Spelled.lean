import Lossless.Proofs.Json.Complete
import Lossless.Proofs.Json.Replaced
import Lossless.Proofs.Json.Token

/-!
# Spellings of a string

The standard lets each character of a string be written as itself, by a letter behind a backslash, or by its code
point; a character beyond the first plane takes the code points of two surrogates. A scanner reads one unit at a time,
and a surrogate alone is no character. So a spelling is read as its string exactly when no surrogate is in it.

A literal that is built from a string, or changed to one, is written between quotes, with a backslash before quotes
and backslashes and every other character as it is. A scanner reads all of this back but for a line feed, which it
does not let into a string.
-/

namespace Lossless
namespace Json

/-! ## Code points -/

/-- A number in four hexadecimal digits. -/
def IsCodeUnit
    (digits : Text)
    (number : Nat) : Prop :=
  digits.length = 4 ∧ Text.naturalIn? 16 digits = some number

/-- A numeral so far, with one more digit. -/
abbrev addDigit?
    (base : Nat)
    (value : Option Nat)
    (char : Char) : Option Nat := do
  return (<- value) * base + (<- Text.digitIn? base char)

theorem foldl_addDigit?_none
    (base : Nat)
    (text : Text) :
    text.foldl (addDigit? base) none = none := by
  induction text with
  | nil => rfl
  | cons first text ih => exact ih

theorem all_isHexDigit_of_foldl
    {digits : Text}
    {value number : Nat}
    (isNumber : digits.foldl (addDigit? 16) (some value) = some number) :
    digits.all isHexDigit = true := by
  induction digits generalizing value with
  | nil => rfl
  | cons first digits ih =>
      rw [List.foldl_cons] at isNumber
      cases isDigit : Text.digitIn? 16 first with
      | none =>
          have stops : addDigit? 16 (some value) first = none := by
            rw [addDigit?, isDigit]
            rfl
          rw [stops, foldl_addDigit?_none] at isNumber
          cases isNumber
      | some digit =>
          have goesOn : addDigit? 16 (some value) first = some (value * 16 + digit) := by
            rw [addDigit?, isDigit]
            rfl
          rw [goesOn] at isNumber
          rw [List.all_cons, isHexDigit, isDigit, ih isNumber]
          rfl

namespace IsCodeUnit

variable {digits : Text} {number : Nat} (isCodeUnit : IsCodeUnit digits number)

include isCodeUnit

theorem all_isHexDigit : digits.all isHexDigit = true := by
  obtain ⟨-, isNumber⟩ := isCodeUnit
  unfold Text.naturalIn? at isNumber
  split at isNumber
  · cases isNumber
  · exact all_isHexDigit_of_foldl isNumber

theorem isScanned : (StringUnit.codePoint digits).IsScanned :=
  (byteLength_of_isHexDigit isCodeUnit.all_isHexDigit).trans isCodeUnit.1

/-- A plus sign is no digit. -/
theorem hexValue?_eq : hexValue? digits = some number := by
  have noSign : Text.dropPlus digits = digits := by
    unfold Text.dropPlus
    split
    · exact absurd (List.all_eq_true.1 isCodeUnit.all_isHexDigit '+' List.mem_cons_self) (by decide)
    · rfl
  rw [hexValue?, noSign]
  exact isCodeUnit.2

theorem value_eq :
    (StringUnit.codePoint digits).value = if number.isValidChar then .ofNat number else replacementCharacter := by
  rw [StringUnit.value, decodeCodePoint, isCodeUnit.hexValue?_eq]

end IsCodeUnit

/-! ## Spellings -/

/-- The letters behind a backslash, and the characters that they stand for. -/
def escapes : List (Char × Char) :=
  [('"', '"'), ('\\', '\\'), ('/', '/'), ('b', '\x08'), ('f', '\x0c'), ('n', '\n'), ('r', '\r'), ('t', '\t')]

theorem unescape_of_mem_escapes
    {letter char : Char}
    (isEscape : (letter, char) ∈ escapes) :
    letter ≠ 'u' ∧ unescape letter = char := by
  have all : forall pair, pair ∈ escapes -> pair.1 ≠ 'u' ∧ unescape pair.1 = pair.2 := by decide
  exact all _ isEscape

/-- A character that may stand for itself between quotes. -/
def IsUnescaped (char : Char) : Prop :=
  ' ' ≤ char ∧ char ≠ '"' ∧ char ≠ '\\'

theorem IsUnescaped.isScanned
    {char : Char}
    (isUnescaped : IsUnescaped char) :
    (StringUnit.plain char).IsScanned := by
  refine ⟨isUnescaped.2.1, isUnescaped.2.2, ?_⟩
  rintro rfl
  exact absurd isUnescaped.1 (by decide)

/-- Units that spell a string after the standard. -/
inductive Spells : Text -> List StringUnit -> Prop
  | nil : Spells [] []
  | plain {char : Char} {value : Text} {units : List StringUnit} :
      IsUnescaped char -> Spells value units -> Spells (char :: value) (.plain char :: units)
  | escape {letter char : Char} {value : Text} {units : List StringUnit} :
      (letter, char) ∈ escapes -> Spells value units -> Spells (char :: value) (.escape letter :: units)
  | codePoint {digits : Text} {char : Char} {value : Text} {units : List StringUnit} :
      IsCodeUnit digits char.toNat -> Spells value units -> Spells (char :: value) (.codePoint digits :: units)
  /-- A character beyond the first plane: the upper and the lower ten bits of its distance from there. -/
  | surrogates {high low : Text} {upper lower : Nat} {char : Char} {value : Text} {units : List StringUnit} :
      IsCodeUnit high (0xD800 + upper) -> upper < 0x400 -> IsCodeUnit low (0xDC00 + lower) -> lower < 0x400 ->
        char.toNat = 0x10000 + (upper * 0x400 + lower) -> Spells value units ->
          Spells (char :: value) (.codePoint high :: .codePoint low :: units)

/-- The code point of a surrogate. -/
def StringUnit.IsSurrogate (unit : StringUnit) : Prop :=
  exists digits number, unit = codePoint digits ∧ IsCodeUnit digits number ∧ 0xD800 ≤ number ∧ number < 0xE000

theorem isSurrogate_codePoint_iff
    {digits : Text}
    {number : Nat}
    (isCodeUnit : IsCodeUnit digits number) :
    (StringUnit.codePoint digits).IsSurrogate ↔ 0xD800 ≤ number ∧ number < 0xE000 := by
  constructor
  · rintro ⟨_, other, ⟨⟩, isOther, isWithin⟩
    obtain rfl : other = number := Option.some.inj (isOther.2.symm.trans isCodeUnit.2)
    exact isWithin
  · exact fun isWithin => ⟨digits, number, rfl, isCodeUnit, isWithin⟩

/-- No character is a surrogate. -/
theorem not_isSurrogate_of_char
    {digits : Text}
    {char : Char}
    (isCodeUnit : IsCodeUnit digits char.toNat) :
    ¬(StringUnit.codePoint digits).IsSurrogate := by
  rw [isSurrogate_codePoint_iff isCodeUnit]
  have valid : char.toNat.isValidChar := char.valid
  unfold Nat.isValidChar at valid
  omega

/-- A surrogate is read as the replacement character. -/
theorem StringUnit.IsSurrogate.value_eq
    {unit : StringUnit}
    (isSurrogate : unit.IsSurrogate) :
    unit.value = replacementCharacter := by
  obtain ⟨digits, number, rfl, isCodeUnit, isWithin⟩ := isSurrogate
  rw [isCodeUnit.value_eq, if_neg]
  unfold Nat.isValidChar
  omega

namespace Spells

variable {value : Text} {units : List StringUnit} (spells : Spells value units)

include spells

/-- A scanner reads every spelling. -/
theorem isScanned : forall unit, unit ∈ units -> unit.IsScanned := by
  induction spells with
  | nil => nofun
  | plain isUnescaped _ ih => exact List.forall_mem_cons.2 ⟨isUnescaped.isScanned, ih⟩
  | escape isEscape _ ih => exact List.forall_mem_cons.2 ⟨(unescape_of_mem_escapes isEscape).1, ih⟩
  | codePoint isCodeUnit _ ih => exact List.forall_mem_cons.2 ⟨isCodeUnit.isScanned, ih⟩
  | surrogates isHigh _ isLow _ _ _ ih =>
      exact List.forall_mem_cons.2 ⟨isHigh.isScanned, List.forall_mem_cons.2 ⟨isLow.isScanned, ih⟩⟩

theorem length_le : value.length ≤ units.length := by
  induction spells with
  | nil => exact Nat.le_refl 0
  | plain _ _ ih => exact Nat.succ_le_succ ih
  | escape _ _ ih => exact Nat.succ_le_succ ih
  | codePoint _ _ ih => exact Nat.succ_le_succ ih
  | surrogates _ _ _ _ _ _ ih => exact Nat.succ_le_succ (Nat.le_succ_of_le ih)

/-- Surrogates are two units for one character. -/
theorem length_lt
    {unit : StringUnit}
    (member : unit ∈ units)
    (isSurrogate : unit.IsSurrogate) :
    value.length < units.length := by
  induction spells with
  | nil => cases member
  | plain _ _ ih =>
      rcases List.mem_cons.1 member with rfl | later
      · obtain ⟨_, _, ⟨⟩, -⟩ := isSurrogate
      · exact Nat.succ_lt_succ (ih later)
  | escape _ _ ih =>
      rcases List.mem_cons.1 member with rfl | later
      · obtain ⟨_, _, ⟨⟩, -⟩ := isSurrogate
      · exact Nat.succ_lt_succ (ih later)
  | codePoint isChar _ ih =>
      rcases List.mem_cons.1 member with rfl | later
      · exact absurd isSurrogate (not_isSurrogate_of_char isChar)
      · exact Nat.succ_lt_succ (ih later)
  | surrogates _ _ _ _ _ others _ => exact Nat.succ_lt_succ (Nat.lt_succ_of_le others.length_le)

/-- The units of a spelling stand for the characters of its string exactly when none of them is a surrogate. -/
theorem values_eq_iff :
    units.map StringUnit.value = value ↔ forall unit, unit ∈ units -> ¬unit.IsSurrogate := by
  constructor
  · intro same unit member isSurrogate
    have shorter := spells.length_lt member isSurrogate
    rw [<- same, List.length_map] at shorter
    exact Nat.lt_irrefl _ shorter
  · intro noSurrogate
    induction spells with
    | nil => rfl
    | plain _ _ ih =>
        exact congrArg (List.cons _) (ih (List.forall_mem_cons.1 noSurrogate).2)
    | escape isEscape _ ih =>
        rw [List.map_cons, ih (List.forall_mem_cons.1 noSurrogate).2]
        exact congrArg (List.cons · _) (unescape_of_mem_escapes isEscape).2
    | @codePoint digits char _ _ isChar _ ih =>
        have isValid : char.toNat.isValidChar := char.valid
        rw [List.map_cons, ih (List.forall_mem_cons.1 noSurrogate).2, isChar.value_eq, if_pos isValid, Char.ofNat_toNat]
    | @surrogates high low upper lower _ _ _ isHigh isUpper _ _ _ _ _ =>
        have isSurrogate : (StringUnit.codePoint high).IsSurrogate :=
          (isSurrogate_codePoint_iff isHigh).2 (by omega)
        exact absurd isSurrogate (noSurrogate _ List.mem_cons_self)

end Spells

/-! ## Reading a spelling -/

/-- A document with nothing but a literal in it. -/
def literalDocument
    (path : Path)
    (source : Text)
    (value : Scalar) : Tree :=
  .build (.document ⟨path, none, none⟩ (.build (.literal source value)) .empty)

/-- A literal is read from its text. -/
theorem parse_literal
    {source : Text}
    {value : Scalar}
    (isWritten : value.IsWrittenAs source)
    (path : Path) :
    parse source path = .ok (literalDocument path source value) := by
  have noSpace (final : Bool) : Space.empty.IsGapTo final := Space.isGapTo_empty final
  have part : (Tree.build (.literal source value)).IsPart :=
    ⟨noSpace false, rfl, Tree.isCanonical_of_parts isWritten nofun nofun nofun⟩
  have isDocument : (literalDocument path source value).IsDocumentOf path := by
    refine ⟨⟨_, _, rfl⟩, rfl, rfl, Tree.isCanonical_of_parts rfl nofun ?_ (List.forall_mem_singleton.2 part)⟩
    rintro _ ⟨⟩
    exact noSpace true
  have printed : (literalDocument path source value).printTrimmed = source := by
    rw [Tree.printTrimmed_of_document (show (literalDocument path source value).form = .document _ _ _ from rfl) rfl]
    simp
  have read := parse_printTrimmed isDocument
  rw [printed] at read
  exact read

/-- The name that the key of a member stands for. -/
def Tree.memberName? (tree : Tree) : Option Text :=
  match tree.form with
  | .member key _ => key.element.keyName?
  | _ => none

section Member

variable {object member : Tree} {members : List (RightPadded Tree)} {name : Text} {front back : List Tree}

/-- Members are found by the names of their keys. -/
theorem member?_eq_find?
    (isObject : object.form = .object members)
    (name : Text) :
    object.member? name = (RightPadded.elements members).find? fun element => element.memberName? = some name := by
  unfold Tree.member?
  rw [isObject]
  dsimp only
  congr 1
  funext element
  unfold Tree.memberName?
  cases element.form <;> simp

/-- The first member with a name is found. -/
theorem member?_of_first
    (isObject : object.form = .object members)
    (elements : RightPadded.elements members = front ++ member :: back)
    (isNamed : member.memberName? = some name)
    (isFirst : forall other, other ∈ front -> other.memberName? ≠ some name) :
    object.member? name = some member := by
  rw [member?_eq_find? isObject, elements, List.find?_append, List.find?_eq_none.2 (by simpa using isFirst),
    Option.none_or, List.find?_cons_of_pos (by simpa using isNamed)]

/-- A member that is found has the name. -/
theorem memberName?_of_member?
    (isObject : object.form = .object members)
    (found : object.member? name = some member) :
    member.memberName? = some name := by
  rw [member?_eq_find? isObject] at found
  simpa using List.find?_some found

end Member

/-- The literals of a document are read from their texts, so a key says which string its token stands for. -/
theorem keyName?_of_quoted
    {source : Text}
    {path : Path}
    {tree key : Tree}
    (parsed : parse source path = .ok tree)
    (isNode : key ∈ tree.nodes)
    {units : List StringUnit}
    (areScanned : forall unit, unit ∈ units -> unit.IsScanned)
    {scalar : Scalar}
    (isQuoted : key.form = .literal (quoted units) scalar) :
    key.keyName? = some (units.map StringUnit.value) := by
  have isToken : key.form.IsToken := hasTokens_of_parse parsed key isNode
  rw [isQuoted] at isToken
  have readAgain := parse_literal isToken path
  rw [parse_literal (isWrittenAs_string_iff.2 ⟨units, areScanned, rfl, rfl⟩) path] at readAgain
  have same : (literalDocument path (quoted units) _).form = _ := congrArg Tree.form (Except.ok.inj readAgain)
  obtain ⟨-, sameValue, -⟩ := Form.document.inj same
  obtain ⟨-, rfl⟩ := Form.literal.inj (congrArg Tree.form sameValue)
  rw [Tree.keyName?, isQuoted]

/--
A spelling between quotes is read as one string literal, of the characters that its units stand for. These are the
spelled string exactly when no unit is a surrogate, and then a member whose key is spelled so is the one that is found
by the string, unless one before it has that name.
-/
theorem spelledString_isRead_iff
    {value : Text}
    {units : List StringUnit}
    (spells : Spells value units) :
    (forall path, parse (quoted units) path =
        .ok (literalDocument path (quoted units) (.string (units.map StringUnit.value)))) ∧
      (units.map StringUnit.value = value ↔ forall unit, unit ∈ units -> ¬unit.IsSurrogate) ∧
      forall source path tree object members front member back key child scalar,
        parse source path = .ok tree -> object ∈ tree.nodes -> object.form = .object members ->
          RightPadded.elements members = front ++ member :: back -> member.form = .member key child ->
            key.element.form = .literal (quoted units) scalar ->
              (forall other, other ∈ front -> other.memberName? ≠ some value) ->
                (object.member? value = some member ↔ forall unit, unit ∈ units -> ¬unit.IsSurrogate) := by
  refine ⟨?_, spells.values_eq_iff, ?_⟩
  · exact parse_literal (isWrittenAs_string_iff.2 ⟨units, spells.isScanned, rfl, rfl⟩)
  · intro source path tree object members front member back key child scalar parsed isNode isObject elements isMember
      isQuoted isFirst
    have isElement : member ∈ object.form.children := by
      rw [isObject, Form.children, elements]
      simp
    have isKey : key.element ∈ member.nodes :=
      Tree.mem_nodes_of_mem_children (by rw [isMember]; exact List.mem_cons_self) (Tree.mem_nodes_self _)
    have keyIsNode : key.element ∈ tree.nodes :=
      Tree.mem_nodes_trans isNode (Tree.mem_nodes_of_mem_children isElement isKey)
    have isNamed : member.memberName? = some (units.map StringUnit.value) := by
      rw [Tree.memberName?, isMember]
      exact keyName?_of_quoted parsed keyIsNode spells.isScanned isQuoted
    rw [<- spells.values_eq_iff]
    constructor
    · intro found
      exact Option.some.inj (isNamed.symm.trans (memberName?_of_member? isObject found))
    · intro same
      rw [same] at isNamed
      exact member?_of_first isObject elements isNamed isFirst

/-- A picture, as two surrogates. -/
def pictureUnits : List StringUnit :=
  [.codePoint "d83d".toList, .codePoint "DE00".toList]

/-- A letter by its code point. -/
def letterUnits : List StringUnit :=
  [.codePoint "00e9".toList]

/-- An object with one member, whose key is the letter. -/
def letterObject : Tree :=
  .build (.object [.build (.build
    (.member (.build (.build (.literal (quoted letterUnits) (.string ['é'])))) (.literal (.truth true))))])

/-- The picture is not read from its surrogates, and a member is found by the letter that its key spells. -/
theorem spelledString_isRead_ofCodePoints :
    Spells ['😀'] pictureUnits ∧ Spells ['é'] letterUnits ∧
      (parse (quoted pictureUnits) ⟨"a.json".toList⟩ =
        .ok (literalDocument ⟨"a.json".toList⟩ (quoted pictureUnits) (.string (pictureUnits.map StringUnit.value))) ∧
        pictureUnits.map StringUnit.value ≠ ['😀']) ∧
      exists tree member, parse ('\x7b' :: quoted letterUnits ++ ":true\x7d".toList) ⟨"a.json".toList⟩ = .ok tree ∧
        letterObject ∈ tree.nodes ∧ letterObject.member? ['é'] = some member := by
  have isHigh : IsCodeUnit "d83d".toList (0xD800 + 0x3d) := ⟨rfl, by decide⟩
  have isLow : IsCodeUnit "DE00".toList (0xDC00 + 0x200) := ⟨rfl, by decide⟩
  have picture : Spells ['😀'] pictureUnits := .surrogates isHigh (by decide) isLow (by decide) (by decide) .nil
  have isLetter : IsCodeUnit "00e9".toList ('é' : Char).toNat := ⟨rfl, by decide⟩
  have letter : Spells ['é'] letterUnits := .codePoint isLetter .nil
  have isSurrogate : (StringUnit.codePoint "d83d".toList).IsSurrogate :=
    (isSurrogate_codePoint_iff isHigh).2 (by decide)
  obtain ⟨isRead, isDecodedIff, -⟩ := spelledString_isRead_iff picture
  obtain ⟨-, -, isFoundIff⟩ := spelledString_isRead_iff letter
  refine ⟨picture, letter, ⟨isRead _, fun same => isDecodedIff.1 same _ List.mem_cons_self isSurrogate⟩, ?_⟩
  let document : Tree := .build (.document ⟨⟨"a.json".toList⟩, none, none⟩ letterObject .empty)
  have isParsed : (parse ('\x7b' :: quoted letterUnits ++ ":true\x7d".toList) ⟨"a.json".toList⟩).toOption =
      some document := by decide +kernel
  have isNode : letterObject ∈ document.nodes :=
    Tree.mem_nodes_of_mem_children (List.mem_singleton_self _) (Tree.mem_nodes_self _)
  have noSurrogate (unit : StringUnit) (member : unit ∈ letterUnits) : ¬unit.IsSurrogate := by
    obtain rfl := List.mem_singleton.1 member
    exact not_isSurrogate_of_char isLetter
  cases parsed : parse ('\x7b' :: quoted letterUnits ++ ":true\x7d".toList) ⟨"a.json".toList⟩ with
  | error =>
      rw [parsed] at isParsed
      cases isParsed
  | ok tree =>
      rw [parsed] at isParsed
      obtain rfl : tree = document := Option.some.inj isParsed
      exact ⟨document, _, rfl, isNode,
        (isFoundIff _ _ _ _ _ [] _ [] _ _ _ parsed isNode rfl rfl rfl rfl nofun).2 noSurrogate⟩

/-! ## Strings that are written anew -/

section Written

open Lossless.Parser
open Json.Parser

variable {text body rest : Text}

/-! ## Between the quotes -/

/-- A character of a string as it is written between quotes. -/
def escaped (char : Char) : Text :=
  if char = '\\' || char = '"' then ['\\', char] else [char]

theorem quote_eq (text : Text) : Scalar.quote text = '"' :: (text.flatMap escaped ++ ['"']) := rfl

/-- A character is written with a backslash, or it is another one and written as it is. -/
theorem escaped_cases (char : Char) :
    (escaped char = ['\\', char] ∧ unescape char = char ∧ char ≠ 'u' ∧ char ≠ '\n') ∨
      escaped char = [char] ∧ char ≠ '"' ∧ char ≠ '\\' := by
  by_cases isBackslash : char = '\\'
  · subst isBackslash
    exact .inl ⟨rfl, rfl, by decide, by decide⟩
  · by_cases isQuote : char = '"'
    · subst isQuote
      exact .inl ⟨rfl, rfl, by decide, by decide⟩
    · exact .inr ⟨if_neg (by simp [isBackslash, isQuote]), isQuote, isBackslash⟩

/-- A string without line feeds is scanned as itself. -/
theorem scans_escaped (noFeed : '\n' ∉ text) : Scans .plain (text.flatMap escaped ++ ['"']) text := by
  induction text with
  | nil => exact .close
  | cons first text ih =>
      have later := ih (List.not_mem_of_not_mem_cons noFeed)
      rw [List.flatMap_cons, List.append_assoc]
      rcases escaped_cases first with ⟨written, stands, noCodePoint, -⟩ | ⟨written, noQuote, noBackslash⟩
      · rw [written]
        have scans := Scans.backslash (Scans.escaped noCodePoint later)
        rwa [stands] at scans
      · rw [written]
        exact .plain noQuote noBackslash (List.ne_of_not_mem_cons noFeed).symm later

theorem prepend_of_error
    {scanned : Except Fault ScannedString}
    {fault : Fault}
    (char : Char)
    (failed : scanned = .error fault) :
    prepend char <$> scanned = .error fault := by
  rw [failed]
  rfl

/-- A scanner complains about the first line feed of a string. -/
theorem scanString_of_feed
    (feeds : '\n' ∈ text)
    (more : Text) :
    exists fault, scanString .plain (text.flatMap escaped ++ more) = .error fault ∧
      fault.complaint = .newlineInString := by
  induction text with
  | nil => cases feeds
  | cons first text ih =>
      rw [List.flatMap_cons, List.append_assoc]
      rcases escaped_cases first with ⟨written, -, noCodePoint, noFeed⟩ | ⟨written, noQuote, noBackslash⟩
      · obtain ⟨fault, failed, isFeed⟩ := ih (List.mem_of_ne_of_mem noFeed.symm feeds)
        refine ⟨fault, ?_, isFeed⟩
        rw [written]
        change scanString .escaped (first :: (text.flatMap escaped ++ more)) = _
        rw [scanString_escaped, if_neg noCodePoint]
        exact prepend_of_error _ failed
      · rw [written, List.singleton_append, scanString_plain, if_neg noQuote, if_neg noBackslash]
        by_cases isFeed : first = '\n'
        · rw [if_pos isFeed]
          exact ⟨_, rfl, rfl⟩
        · obtain ⟨fault, failed, isNewline⟩ := ih (List.mem_of_ne_of_mem (Ne.symm isFeed) feeds)
          rw [if_neg isFeed]
          exact ⟨fault, prepend_of_error _ failed, isNewline⟩

/-! ## Documents -/

/-- What a document prints is read as a document whose value is a literal of a scalar. -/
def IsReadAs
    (path : Path)
    (document : Tree)
    (scalar : Scalar) : Prop :=
  exists parsed info value eof source, parse document.printTrimmed path = .ok parsed ∧
    parsed.form = .document info value eof ∧ value.form = .literal source scalar

section Document

variable {path : Path} {document literal : Tree} {info : SourceInfo} {eof : Space} {source : Text} {scalar : Scalar}
variable
  (form : document.form = .document info literal eof)
  (isEmpty : document.leading.isEmpty = true)
  (isLiteral : literal.form = .literal source scalar)
  (leading : literal.leading.IsGap)

include form isEmpty isLiteral leading

/-- A literal that is written as its value is read back. -/
theorem isReadAs_of_isWrittenAs
    (isWritten : scalar.IsWrittenAs source)
    (atEnd : eof.IsGapTo true) :
    IsReadAs path document scalar := by
  let value := Tree.buildAfter literal.leading (.literal source scalar)
  let readable := Tree.build (.document ⟨path, none, none⟩ value eof)
  have part : value.IsPart := ⟨leading, rfl, Tree.isCanonical_of_parts isWritten nofun nofun nofun⟩
  have isDocument : readable.IsDocumentOf path := by
    refine ⟨⟨value, eof, rfl⟩, rfl, rfl, Tree.isCanonical_of_parts rfl nofun ?_ (List.forall_mem_singleton.2 part)⟩
    rintro _ ⟨⟩
    exact atEnd
  have form' : readable.form = .document ⟨path, none, none⟩ value eof := rfl
  have printed : document.printTrimmed = readable.printTrimmed := by
    rw [Tree.printTrimmed_of_document form isEmpty, Tree.printTrimmed_of_document form' rfl, isLiteral]
    rfl
  refine ⟨readable.renewed, ⟨path, none, none⟩, value.renewed, eof.renewed, source, ?_, ?_, ?_⟩
  · rw [printed]
    exact parse_printTrimmed isDocument
  · rw [show readable.renewed = _ from Tree.renewed_node _ _]
    rfl
  · rw [show value.renewed = _ from Tree.renewed_node _ _]
    rfl

/-- A document with a string that has a line feed between its quotes is rejected. -/
theorem parse_of_feed
    (isQuoted : source = Scalar.quote text)
    (feeds : '\n' ∈ text) :
    exists error, parse document.printTrimmed path = .error error := by
  let behind := eof.render .slash
  obtain ⟨fault, failed, -⟩ := scanString_of_feed feeds ('"' :: behind)
  have written : literal.form.written ++ behind = '"' :: (text.flatMap escaped ++ '"' :: behind) := by
    rw [isLiteral, isQuoted, Form.written_literal, quote_eq, List.cons_append, List.append_assoc]
    rfl
  have leadingRead : gap (literal.leading.render .slash ++ (literal.form.written ++ behind)) = .ok (_, _) :=
    gap_render_inner leading (by rw [written]; rfl)
  -- however deep the value may go, its scanner stops inside the string and never comes to what is behind it
  have rejected (bound : Nat) (space : Space) :
      valueWithin (bound + 1) space (literal.form.written ++ behind) = .error fault := by
    rw [written]
    unfold valueWithin
    rw [bind_get]
    refine bind_of_error ?_
    change (scanString .plain (text.flatMap escaped ++ '"' :: behind) >>= _) = _
    rw [failed]
    rfl
  refine ⟨fault.toError document.printTrimmed, ?_⟩
  have read : Parser.document path document.printTrimmed = .error fault := by
    rw [Tree.printTrimmed_of_document form isEmpty]
    unfold Parser.document
    rw [bind_of_ok leadingRead, bind_get]
    exact bind_of_error (rejected _ _)
  rw [parse, read]

/-- A string between quotes is read back when there is no line feed in it. -/
theorem isReadAs_iff_of_quote
    (isQuoted : source = Scalar.quote text)
    (isString : scalar = .string text)
    (atEnd : eof.IsGapTo true) :
    IsReadAs path document scalar ↔ '\n' ∉ text := by
  constructor
  · rintro ⟨parsed, _, _, _, _, isParsed, -, -⟩ feeds
    obtain ⟨error, rejected⟩ : exists error, parse document.printTrimmed path = .error error :=
      parse_of_feed form isEmpty isLiteral leading isQuoted feeds
    rw [rejected] at isParsed
    cases isParsed
  · intro noFeed
    refine isReadAs_of_isWrittenAs form isEmpty isLiteral leading ?_ atEnd
    rw [isQuoted, isString]
    exact ⟨_, quote_eq text, scans_escaped noFeed⟩

end Document

/-! ## Changed literals -/

section Changed

variable {literal : Tree} {source : Text} {old : Scalar}

theorem agrees_string_iff : (Scalar.string text).agrees old = true ↔ old = .string text := by
  cases old <;> simp [Scalar.agrees, eq_comm]

/-- A literal of another value is written anew. -/
theorem form_withScalar_of_ne
    (isLiteral : literal.form = .literal source old)
    (other : old ≠ .string text) :
    (literal.withScalar (.string text)).form = .literal (Scalar.quote text) (.string text) := by
  unfold Tree.withScalar
  rw [isLiteral]
  dsimp only
  rw [if_neg (mt agrees_string_iff.1 other)]
  rfl

/-- A literal of the same value is left as it is. -/
theorem withScalar_of_eq
    (isLiteral : literal.form = .literal source old)
    (same : old = .string text) :
    literal.withScalar (.string text) = literal := by
  unfold Tree.withScalar
  rw [isLiteral]
  dsimp only
  rw [if_pos (agrees_string_iff.2 same)]

end Changed

/--
A string literal that is built anew as the value of a document is read back as its string exactly when there is no line
feed in it, and so is a literal that is changed to the string. A literal that has the string already is left as it is
written, and read back.
-/
theorem stringLiteral_isReadBack_iff
    {path : Path}
    {document value : Tree}
    {info : SourceInfo}
    {eof : Space}
    (form : document.form = .document info value eof)
    (isEmpty : document.leading.isEmpty = true)
    (leading : value.leading.IsGap)
    (atEnd : eof.IsGapTo true)
    (text : Text) :
    (value.form = (Tree.literal (.string text)).form -> (IsReadAs path document (.string text) ↔ '\n' ∉ text)) ∧
      forall (literal : Tree) (source : Text) (old : Scalar), literal.form = .literal source old ->
        value = literal.withScalar (.string text) ->
        (old ≠ .string text -> (IsReadAs path document (.string text) ↔ '\n' ∉ text)) ∧
          (old = .string text -> old.IsWrittenAs source -> IsReadAs path document (.string text)) := by
  have quoted (isLiteral : value.form = .literal (Scalar.quote text) (.string text)) :
      IsReadAs path document (.string text) ↔ '\n' ∉ text :=
    isReadAs_iff_of_quote form isEmpty isLiteral leading rfl rfl atEnd
  refine ⟨quoted, ?_⟩
  rintro literal source old isLiteral rfl
  refine ⟨fun other => quoted (form_withScalar_of_ne isLiteral other), ?_⟩
  rintro rfl isWritten
  rw [withScalar_of_eq isLiteral rfl] at form leading
  exact isReadAs_of_isWrittenAs form isEmpty isLiteral leading isWritten atEnd

/-- A string with a quote and a backslash is read back, one with a line feed is not. -/
theorem stringLiteral_isReadBack_ofQuote :
    IsReadAs ⟨"a.json".toList⟩
        (.build (.document ⟨⟨"a.json".toList⟩, none, none⟩ (.literal (.string ['"', '\\'])) .empty))
        (.string ['"', '\\']) ∧
      ¬IsReadAs ⟨"a.json".toList⟩
        (.build (.document ⟨⟨"a.json".toList⟩, none, none⟩ (.literal (.string ['a', '\n', 'b'])) .empty))
        (.string ['a', '\n', 'b']) := by
  have noLeading (scalar : Scalar) : (Tree.literal scalar).leading.IsGap := Space.isGapTo_empty false
  have noEof : Space.empty.IsGapTo true := Space.isGapTo_empty true
  constructor
  · exact ((stringLiteral_isReadBack_iff rfl rfl (noLeading _) noEof ['"', '\\']).1 rfl).2 (by decide)
  · exact fun readBack =>
      ((stringLiteral_isReadBack_iff rfl rfl (noLeading _) noEof ['a', '\n', 'b']).1 rfl).1 readBack (by decide)

end Written

end Json
end Lossless
