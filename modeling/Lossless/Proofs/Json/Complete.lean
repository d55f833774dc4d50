import Lossless.Json.Node
import Lossless.Proofs.Gap.Reading
import Lossless.Proofs.Json.Written
import Lossless.Proofs.Json.Sound

/-!
# Canonical documents are read back

A tree without what tells its cells apart is renewed: every node, space and marker is as if it had just been built.
Two trees with the same renewed tree differ in identity alone.

`IsComplete` says that a parser reads every written tree of a kind back, as a new tree, where the text ends the tree.
How long a text can be is bounded, since the parser of nested values is. Every canonical document is read back from
what it prints as.
-/

namespace Lossless
namespace Json

/-! ## Data trees as new ones -/

namespace Form

/-- The form with new spaces and markers, and with renewed children. -/
def renewed (child : α -> β) : Form α -> Form β
  | document source value eof => .document source (child value) eof.renewed
  | object members => .object (members.map (·.renewed child))
  | member key value => .member (key.renewed child) (child value)
  | array values => .array (values.map (·.renewed child))
  | literal source value => .literal source value
  | identifier name => .identifier name
  | empty => .empty

theorem renewed_map
    (child : β -> γ)
    (change : α -> β)
    (form : Form α) :
    (form.map change).renewed child = form.renewed fun element => child (change element) := by
  cases form <;> simp [map, renewed, RightPadded.renewed, Function.comp_def]

end Form

namespace Tree

/-- The same tree as a new one: the same syntax, spaces and markers, in nodes without an identity. -/
def renewed (tree : Tree) : Tree :=
  recurse
    (fun head form =>
      .node ⟨.pending, .pending, head.leading.renewed, head.markers.renewed⟩ (form.renewed Prod.snd))
    tree

theorem renewed_node
    (head : Head)
    (form : Form Tree) :
    (node head form).renewed =
      .node ⟨.pending, .pending, head.leading.renewed, head.markers.renewed⟩ (form.renewed renewed) := by
  rw [renewed, recurse_node, Form.renewed_map]
  rfl

/-- A tree as a new one after another space. -/
def placed
    (leading : Space)
    (tree : Tree) : Tree :=
  .buildAfter leading (tree.form.renewed renewed)

/-- A tree without markers is placed after its own space. -/
theorem renewed_eq_placed
    {tree : Tree}
    (unmarked : tree.markers.toList = []) :
    tree.renewed = tree.placed tree.leading.renewed := by
  obtain ⟨head, form⟩ := tree
  have noMarkers : head.markers.renewed = .empty := Markers.renewed_of_toList unmarked
  rw [renewed_node, noMarkers]
  rfl

end Tree

/-! ## Written trees are read back -/

open Lossless.Parser
open Json.Parser

variable {text rest : Text} {leading : Space} {tree : Tree}

/-! ### Where a token ends -/

/-- Can go on with a token. -/
def goesOn (char : Char) : Bool :=
  isNumberPart char || Text.isIdentifierPart char

/-- The signs that separate elements or end a list. -/
def signs : List Char := [',', ':', ']', '\x7d']

/-- No token goes on in a gap. -/
theorem startsIn_render_goesOn
    {final : Bool}
    {space : Space}
    (isGap : space.IsGapTo final)
    (behind : space.isEmpty = true -> rest.startsIn goesOn = false) :
    (space.render .slash ++ rest).startsIn goesOn = false := by
  have noBlank {char : Char} (blank : Text.isBlank char = true) : goesOn char = false := by
    have noNumber : isNumberPart char = false := Text.eq_false_of_isBlank (by decide) blank
    exact Bool.or_eq_false_iff.2 ⟨noNumber, Text.isIdentifierPart_of_isBlank blank⟩
  exact Space.startsIn_render noBlank (by decide) isGap.blank behind

/-- A token ends where a gap leads to a sign. -/
theorem endsToken_of_sign
    {space : Space}
    {sign : Char}
    (isGap : space.IsGap)
    (isSign : sign ∈ signs)
    (after : Text) :
    (space.render .slash ++ sign :: after).startsIn goesOn = false := by
  have noneGoesOn : signs.any goesOn = false := by decide
  exact startsIn_render_goesOn isGap fun _ => Text.eq_false_of_mem noneGoesOn isSign

theorem isSolid_of_sign
    {sign : Char}
    (isSign : sign ∈ signs)
    (after : Text) :
    Text.isSolid (sign :: after) = true := by
  have noBlank : signs.any Text.isBlank = false := by decide
  have noSlash : signs.any (· = '/') = false := by decide
  exact Text.isSolid_cons (Text.eq_false_of_mem noBlank isSign)
    (of_decide_eq_false (Text.eq_false_of_mem noSlash isSign)) after

/-- A parser reads written trees of a kind back, in texts that are shorter than a bound. -/
def IsComplete
    (test : Form Tree -> Bool)
    (bound : Nat)
    (element : Space -> Parser Tree) : Prop :=
  forall {leading : Space} {tree : Tree} {rest : Text},
    tree.IsCanonical -> test tree.form = true -> rest.startsIn goesOn = false ->
      (tree.form.written ++ rest).length < bound ->
        element leading (tree.form.written ++ rest) = .ok (tree.placed leading, rest)

/-! ### Tokens -/

theorem string_complete
    {body value : Text}
    (scans : Scans .plain body value)
    (rest : Text) :
    string ('"' :: (body ++ rest)) = .ok (.literal ('"' :: body) (.string value), rest) := by
  have scanned : scanString .plain (body ++ rest) = .ok (value, rest) := scans .plain rest trivial
  have source : List.take (('"' :: (body ++ rest)).length - rest.length) ('"' :: (body ++ rest)) = '"' :: body := by
    rw [<- List.cons_append]
    apply List.take_left'
    rw [List.length_append, Nat.add_sub_cancel]
  change (scanString .plain (body ++ rest) >>= fun scanned => _) = _
  rw [scanned]
  change Except.ok (Form.literal (List.take _ _) _, rest) = _
  rw [source]

theorem startsIn_of_goesOn
    {test : Char -> Bool}
    (narrower : forall {char}, test char = true -> goesOn char = true)
    (ends : rest.startsIn goesOn = false) :
    rest.startsIn test = false := by
  apply Bool.eq_false_iff.2
  intro starts
  rw [Text.startsIn_of_startsIn narrower starts] at ends
  cases ends

theorem number_complete
    {source : Text}
    {value : Binary64}
    (isPart : source.all isNumberPart = true)
    (isNumber : Binary64.ofText? source = some value)
    (ends : rest.startsIn goesOn = false) :
    number (source ++ rest) = .ok (.literal source (.number value), rest) := by
  have outside : rest.startsIn isNumberPart = false :=
    startsIn_of_goesOn (fun isPart => by simp [goesOn, isPart]) ends
  unfold number
  rw [Text.takeWhile_run isPart outside, Text.dropWhile_run isPart outside]
  dsimp only
  rw [isNumber]

theorem word_complete
    {value : Scalar}
    (isWord : value = .null ∨ exists truth, value = .truth truth)
    (rest : Text) :
    word [.truth true, .truth false, .null] (value.render ++ rest) = .ok (.literal value.render value, rest) := by
  rcases isWord with rfl | ⟨_ | _, rfl⟩ <;> rfl

theorem key_complete
    {form : Form Tree}
    (fits : form.Fits)
    (isKey : form.isKey = true)
    (ends : rest.startsIn goesOn = false) :
    key (form.written ++ rest) = .ok (form, rest) := by
  cases form with
  | literal source value =>
      cases value with
      | string value =>
          obtain ⟨body, rfl, scans⟩ := fits
          rw [Form.written_literal]
          exact string_complete scans rest
      | _ => cases isKey
  | identifier name =>
      obtain ⟨starts, inside⟩ := fits
      have outside : rest.startsIn Text.isIdentifierPart = false :=
        startsIn_of_goesOn (fun isPart => by simp [goesOn, isPart]) ends
      rw [Form.written_identifier]
      unfold key
      rw [bind_get]
      cases name with
      | nil => cases starts
      | cons first more =>
          have noQuote : first ≠ '"' := by
            rintro rfl
            have noStart : Text.isIdentifierStart '"' = false := by decide
            exact Bool.false_ne_true (noStart.symm.trans starts)
          have isStart : Text.isIdentifierStart first = true := starts
          rw [List.cons_append]
          dsimp only
          rw [if_neg noQuote, if_pos isStart]
          apply bind_of_ok
          exact takeWhile_eq_ok.2 (Text.takeWhile_eq_iff.2 ⟨rfl, inside, outside⟩)
  | _ => cases isKey

/-! ### Lists -/

theorem Tree.IsPart.renewed (part : tree.IsPart) : tree.renewed = tree.placed tree.leading.renewed :=
  renewed_eq_placed part.unmarked

theorem Tree.placed_of_form
    {form : Form Tree}
    (tree : Tree)
    (isForm : tree.form = form)
    (leading : Space) :
    tree.placed leading = .buildAfter leading (form.renewed Tree.renewed) := by
  rw [placed, isForm]

/-- A key has no space before it, and nothing below it. -/
theorem Tree.IsPart.renewed_of_isKey
    (part : tree.IsPart)
    (isKey : tree.form.isKey = true)
    (noLeading : tree.leading.isEmpty = true) :
    tree.renewed = .build tree.form := by
  rw [part.renewed, Space.renewed_of_isEmpty noLeading, placed]
  cases form : tree.form with
  | literal => rfl
  | identifier => rfl
  | _ =>
      rw [form] at isKey
      cases isKey

/-- What starts an element closes no list. -/
theorem dropStart?_of_opensElement
    {close : Char}
    (isSign : close ∈ signs)
    (starts : text.startsIn opensElement = true) :
    Text.dropStart? [close] text = none := by
  cases text with
  | nil => cases starts
  | cons first more =>
      have other : first ≠ close := ne_of_opensElement starts (List.mem_cons_of_mem _ isSign)
      simp [Text.dropStart?, other.symm]

/-- A sign that is not the one that is asked for is not read. -/
theorem accept_of_ne
    {sign other : Char}
    (differs : sign ≠ other)
    (rest : Text) :
    accept [sign] (other :: rest) = .ok (false, other :: rest) := by
  apply accept_of_none
  simp [Text.dropStart?, differs]

section Elements

variable {test : Form Tree -> Bool} {bound : Nat} {element : Space -> Parser Tree} {close : Char}
variable (complete : IsComplete test bound element)
variable (opens : forall {tree : Tree}, tree.IsCanonical -> test tree.form = true ->
  tree.form.written.startsIn opensElement = true)
variable (isSign : close ∈ signs)

include complete opens isSign

/-- The steps in which an element with its padding is read back, up to the sign behind it. -/
theorem element_complete
    {padded : RightPadded Tree}
    {sign : Char}
    (kind : test padded.element.form = true)
    (part : padded.element.IsPart)
    (isGap : padded.after.IsGap)
    (atSign : sign ∈ signs)
    (short : (writtenPadded padded ++ sign :: rest).length < bound) :
    exists body behind,
      gap (writtenPadded padded ++ sign :: rest) = .ok (padded.element.leading.renewed, body) ∧
        accept [close] body = .ok (false, body) ∧
        element padded.element.leading.renewed body = .ok (padded.element.renewed, behind) ∧
        gap behind = .ok (padded.after.renewed, sign :: rest) := by
  have starts := Text.startsIn_append (opens part.canonical kind) (padded.after.render .slash ++ sign :: rest)
  have written : writtenPadded padded ++ sign :: rest =
      padded.element.leading.render .slash ++
        (padded.element.form.written ++ (padded.after.render .slash ++ sign :: rest)) := by
    rw [writtenPadded, Tree.printTrimmed_eq, List.append_assoc, List.append_assoc]
  rw [written, List.length_append] at short
  refine ⟨padded.element.form.written ++ (padded.after.render .slash ++ sign :: rest),
    padded.after.render .slash ++ sign :: rest, ?_, ?_, ?_, ?_⟩
  · rw [written]
    exact gap_render_inner part.leading (isSolid_of_opensElement starts)
  · exact accept_of_none (dropStart?_of_opensElement isSign starts)
  · rw [part.renewed]
    exact complete part.canonical kind (endsToken_of_sign isGap atSign rest)
      (Nat.lt_of_le_of_lt (Nat.le_add_left _ _) short)
  · exact gap_render_inner isGap (isSolid_of_sign atSign rest)

/-- The elements of a list are read back, with the closing delimiter. -/
theorem elements_complete
    {list : List (RightPadded Tree)}
    (fits : FitElements test list)
    (gaps : forall padded, padded ∈ list -> padded.after.IsGap)
    (parts : forall child, child ∈ RightPadded.elements list -> child.IsPart)
    (noComma : close ≠ ',')
    (short : (writtenElements list ++ close :: rest).length < bound)
    {fuel : Nat}
    (enough : list.length ≤ fuel) :
    elements [close] element fuel (writtenElements list ++ close :: rest) =
      .ok (list.map (·.renewed Tree.renewed), rest) := by
  induction list generalizing fuel with
  | nil => exact absurd rfl fits.nonempty
  | cons first others ih =>
      obtain ⟨fuel, rfl⟩ : exists fewer, fuel = fewer + 1 := Nat.exists_eq_add_one.2 (by simp at enough; omega)
      have afterIsGap := gaps first List.mem_cons_self
      have part := parts first.element List.mem_cons_self
      obtain ⟨unmarked, kind⟩ := fits.each first List.mem_cons_self
      have renewed : first.renewed Tree.renewed = ⟨first.element.renewed, first.after.renewed, .empty⟩ := by
        rw [RightPadded.renewed, Markers.renewed_of_toList unmarked]
      by_cases more : others = []
      · subst more
        rw [List.map_singleton, writtenElements]
        rcases kind with kind | ⟨isEmpty, noAfter⟩
        · obtain ⟨body, behind, readLeading, notClosed, read, readAfter⟩ :=
            element_complete complete opens isSign kind part afterIsGap isSign short
          unfold elements
          rw [bind_of_ok readLeading, bind_of_ok notClosed, if_neg Bool.false_ne_true, bind_of_ok read,
            bind_of_ok readAfter, bind_of_ok (accept_cons close rest), if_pos rfl, renewed]
          rfl
        · have written : writtenPadded first ++ close :: rest = first.element.leading.render .slash ++ close :: rest := by
            rw [writtenPadded, Tree.printTrimmed_eq, isEmpty, Form.written_empty, List.append_nil,
              (Space.render_eq_nil_iff _).2 noAfter, List.append_nil]
          have readLeading := gap_render_inner part.leading (isSolid_of_sign isSign rest)
          have same : first.element.renewed = .buildAfter first.element.leading.renewed .empty := by
            rw [part.renewed, Tree.placed, isEmpty]
            rfl
          unfold elements
          rw [written, bind_of_ok readLeading, bind_of_ok (accept_cons close rest), if_pos rfl, renewed, same,
            Space.renewed_of_isEmpty noAfter]
          rfl
      · have atComma : ',' ∈ signs := by decide
        have kind := fits.head more
        rw [writtenElements_cons more, List.append_assoc, List.cons_append] at short ⊢
        obtain ⟨body, behind, readLeading, notClosed, read, readAfter⟩ :=
          element_complete complete opens isSign kind part afterIsGap atComma short
        have shorter : (writtenElements others ++ close :: rest).length < bound := by
          simp only [List.length_append, List.length_cons] at short ⊢
          omega
        have later := ih (fits.tail more) (fun padded member => gaps padded (List.mem_cons_of_mem _ member))
          (fun child member => parts child (List.mem_cons_of_mem _ member)) shorter (Nat.le_of_succ_le_succ enough)
        unfold elements
        rw [bind_of_ok readLeading, bind_of_ok notClosed, if_neg Bool.false_ne_true, bind_of_ok read,
          bind_of_ok readAfter, bind_of_ok (accept_of_ne noComma _), if_neg Bool.false_ne_true,
          bind_of_ok (accept_cons ',' _), if_pos rfl, bind_of_ok later, List.map_cons, renewed]
        rfl

/-- A delimited list is read back. -/
theorem delimited_complete
    (opening : Char)
    {list : List (RightPadded Tree)}
    (fits : FitElements test list)
    (gaps : forall padded, padded ∈ list -> padded.after.IsGap)
    (parts : forall child, child ∈ RightPadded.elements list -> child.IsPart)
    (noComma : close ≠ ',')
    (short : (writtenElements list ++ close :: rest).length < bound) :
    delimited [opening] [close] element (opening :: (writtenElements list ++ close :: rest)) =
      .ok (list.map (·.renewed Tree.renewed), rest) := by
  unfold delimited
  rw [bind_of_ok (expect_cons opening _), bind_get]
  apply elements_complete complete opens isSign fits gaps parts noComma short
  have := length_le_length_writtenElements list
  simp only [List.length_append, List.length_cons]
  omega

end Elements

/-! ### Values -/

variable {bound : Nat} {value : Space -> Parser Tree}

theorem member_complete
    (complete : IsComplete Form.isValue bound value) :
    IsComplete Form.isMember bound (member value) := by
  intro leading tree rest canonical kind ends short
  have fits := canonical.root.fits
  have gaps := canonical.root.gaps
  cases form : tree.form with
  | member key child =>
      rw [form] at fits gaps
      have parts (part : Tree) (isChild : part ∈ (Form.member key child).children) : part.IsPart :=
        canonical.part (by rw [form]; exact isChild)
      have keyPart := parts key.element List.mem_cons_self
      have childPart := parts child (List.mem_cons_of_mem _ (List.mem_singleton_self _))
      obtain ⟨unmarked, isKey, noLeading, isValue⟩ := fits
      have atColon : ':' ∈ signs := by decide
      have afterIsGap := gaps key.after (List.mem_singleton_self _)
      have written : (Form.member key child).written ++ rest =
          key.element.form.written ++ (key.after.render .slash ++
            ':' :: (child.leading.render .slash ++ (child.form.written ++ rest))) := by
        simp [writtenPadded, Tree.printTrimmed_eq, (Space.render_eq_nil_iff _).2 noLeading]
      rw [form, written] at short
      have shorter : (child.form.written ++ rest).length < bound := by
        simp only [List.length_append, List.length_cons] at short ⊢
        omega
      have childStarts := Text.startsIn_append
        (startsIn_opensElement_of_isValue childPart.canonical.root.fits isValue) rest
      have keyRead := key_complete keyPart.canonical.root.fits isKey (endsToken_of_sign afterIsGap atColon
        (child.leading.render .slash ++ (child.form.written ++ rest)))
      have afterRead := gap_render_inner afterIsGap (isSolid_of_sign atColon
        (child.leading.render .slash ++ (child.form.written ++ rest)))
      have leadingRead := gap_render_inner childPart.leading (isSolid_of_opensElement childStarts)
      have childRead : value child.leading.renewed (child.form.written ++ rest) =
          .ok (child.placed child.leading.renewed, rest) := complete childPart.canonical isValue ends shorter
      unfold member
      rw [written, bind_of_ok keyRead, bind_of_ok afterRead, bind_of_ok (expect_cons ':' _),
        bind_of_ok leadingRead, bind_of_ok childRead, run_pure, tree.placed_of_form form leading, Form.renewed,
        RightPadded.renewed, Markers.renewed_of_toList unmarked, keyPart.renewed_of_isKey isKey noLeading,
        childPart.renewed]
  | _ =>
      rw [form] at kind
      cases kind

/-- A value is read back by a parser of values that may be nested as deep as the text is long. -/
theorem valueWithin_complete (depth : Nat) : IsComplete Form.isValue depth (valueWithin depth) := by
  induction depth with
  | zero =>
      intro leading tree rest canonical kind ends short
      cases short
  | succ depth ih =>
      intro leading tree rest canonical kind ends short
      have fits := canonical.root.fits
      have gaps := canonical.root.gaps
      have parts (child : Tree) (member : child ∈ tree.form.children) : child.IsPart := canonical.part member
      cases form : tree.form with
      | object members =>
          rw [form] at fits gaps parts
          have written : (Form.object members).written ++ rest =
              '\x7b' :: (writtenElements members ++ '\x7d' :: rest) := by simp
          rw [form, written] at short
          have list := delimited_complete (member_complete ih) startsIn_opensElement_of_isMember
            (by decide) '\x7b' fits (List.forall_mem_map.1 gaps) parts (by decide) (Nat.lt_of_succ_lt_succ short)
          unfold valueWithin
          rw [written, bind_get, tree.placed_of_form form leading]
          exact bind_of_ok (map_eq_ok.2 ⟨_, list, rfl⟩)
      | array values =>
          rw [form] at fits gaps parts
          have written : (Form.array values).written ++ rest =
              '[' :: (writtenElements values ++ ']' :: rest) := by simp
          rw [form, written] at short
          have list := delimited_complete ih
            (fun canonical isValue => startsIn_opensElement_of_isValue canonical.root.fits isValue)
            (by decide) '[' fits (List.forall_mem_map.1 gaps) parts (by decide) (Nat.lt_of_succ_lt_succ short)
          unfold valueWithin
          rw [written, bind_get, tree.placed_of_form form leading]
          exact bind_of_ok (map_eq_ok.2 ⟨_, list, rfl⟩)
      | literal source value =>
          rw [form] at fits
          unfold valueWithin
          rw [Form.written_literal, bind_get, tree.placed_of_form form leading]
          cases value with
          | string value =>
              obtain ⟨body, rfl, scans⟩ := fits
              exact bind_of_ok (string_complete scans rest)
          | number value =>
              obtain ⟨starts, isPart, isNumber⟩ := fits
              have read := number_complete isPart isNumber ends
              cases source with
              | nil => cases starts
              | cons first more =>
                  have isStart : (first = '-' || first.isDigit) = true := starts
                  have other {sign : Char} {tail : Text} (isOther : (sign = '-' || sign.isDigit) = false) :
                      first :: (more ++ rest) ≠ sign :: tail := by
                    rintro equal
                    obtain ⟨rfl, -⟩ := List.cons.inj equal
                    exact Bool.false_ne_true (isOther.symm.trans isStart)
                  rw [List.cons_append] at read ⊢
                  generalize whole : first :: (more ++ rest) = text at read ⊢
                  split
                  · exact absurd whole (other rfl)
                  · exact absurd whole (other rfl)
                  · exact absurd whole (other rfl)
                  · obtain ⟨rfl, rfl⟩ := List.cons.inj whole
                    rw [if_pos isStart]
                    exact bind_of_ok read
                  · cases whole
          | truth truth =>
              obtain rfl : source = (Scalar.truth truth).render := fits
              cases truth
              · exact bind_of_ok (word_complete (.inr ⟨false, rfl⟩) rest)
              · exact bind_of_ok (word_complete (.inr ⟨true, rfl⟩) rest)
          | null =>
              obtain rfl : source = Scalar.null.render := fits
              exact bind_of_ok (word_complete (.inl rfl) rest)
      | _ =>
          rw [form] at kind
          cases kind

/-! ### Documents -/

/-- A document in the form that a source under a path parses as. -/
structure Tree.IsDocumentOf
    (path : Path)
    (tree : Tree) : Prop where
  isDocument : exists value eof, tree.form = .document ⟨path, none, none⟩ value eof
  isEmpty : tree.leading.isEmpty = true
  unmarked : tree.markers.toList = []
  canonical : tree.IsCanonical

variable {path : Path}

theorem Tree.IsDocumentOf.isPart (isDocument : tree.IsDocumentOf path) : tree.IsPart :=
  ⟨Space.isGapTo_of_isEmpty isDocument.isEmpty _, isDocument.unmarked, isDocument.canonical⟩

/-- A source parses as a document that can be read. -/
theorem isDocumentOf_of_parse
    {source : Text}
    (paired : source.hasPairedReturns = true)
    (parsed : parse source path = .ok tree) :
    tree.IsDocumentOf path := by
  obtain ⟨value, eof, rfl, canonical, -⟩ := document_of_parse paired parsed
  exact ⟨⟨value, eof, rfl⟩, rfl, rfl, canonical⟩

theorem Tree.printTrimmed_of_document
    {info : SourceInfo}
    {value : Tree}
    {eof : Space}
    (form : tree.form = .document info value eof)
    (isEmpty : tree.leading.isEmpty = true) :
    tree.printTrimmed = value.leading.render .slash ++ (value.form.written ++ eof.render .slash) := by
  rw [printTrimmed_eq, (Space.render_eq_nil_iff _).2 isEmpty, form, Form.written_document, printTrimmed_eq,
    List.nil_append, List.append_assoc]

/-- A document that can be read is read back from what it prints as. -/
theorem parse_printTrimmed
    (isDocument : tree.IsDocumentOf path) :
    parse tree.printTrimmed path = .ok tree.renewed := by
  obtain ⟨⟨value, eof, form⟩, isEmpty, unmarked, canonical⟩ := isDocument
  have isValue : value.form.isValue = true := by
    have fits := canonical.root.fits
    rw [form] at fits
    exact fits
  have part : value.IsPart := canonical.part (by rw [form]; exact List.mem_singleton_self _)
  have eofIsGap : eof.IsGapTo true := canonical.root.eof eof (by rw [form]; rfl)
  have printed : tree.printTrimmed =
      value.leading.render .slash ++ (value.form.written ++ (eof.render .slash ++ [])) := by
    rw [List.append_nil]
    exact Tree.printTrimmed_of_document form isEmpty
  have starts := Text.startsIn_append
    (startsIn_opensElement_of_isValue part.canonical.root.fits isValue) (eof.render .slash ++ [])
  have ends : (eof.render .slash ++ []).startsIn goesOn = false :=
    startsIn_render_goesOn eofIsGap fun _ => rfl
  have leadingRead := gap_render_inner part.leading (isSolid_of_opensElement starts)
  have valueRead : valueWithin _ value.leading.renewed (value.form.written ++ (eof.render .slash ++ [])) =
      .ok (value.placed value.leading.renewed, eof.render .slash ++ []) :=
    valueWithin_complete _ part.canonical isValue ends (Nat.lt_succ_self _)
  have eofRead : gap (eof.render .slash ++ []) = .ok (eof.renewed, []) := gap_render eofIsGap rfl fun _ => rfl
  have read : document path tree.printTrimmed =
      .ok (.build (.document ⟨path, none, none⟩ value.renewed eof.renewed), []) := by
    unfold document
    rw [printed, bind_of_ok leadingRead, bind_get, bind_of_ok valueRead, bind_of_ok eofRead, bind_get,
      part.renewed]
    rfl
  rw [parse, read, Tree.renewed_eq_placed unmarked, Space.renewed_of_isEmpty isEmpty, tree.placed_of_form form]
  rfl

end Json
end Lossless
