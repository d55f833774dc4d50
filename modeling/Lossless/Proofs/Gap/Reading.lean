import Lossless.Padding
import Lossless.Proofs.Gap.Agreement

/-!
# Reading spaces back

A gap that is written before a text that goes on with a token is scanned as a whole and splits into the same
whitespace and comments. So a parser reads a written gap back, as a new cell, and a gap that was read from a
text with paired returns is written as it was.
-/

namespace Lossless

namespace Text

/-- A closing delimiter further on does not close a block comment earlier. -/
theorem startsClosing_append_close
    {first : Char}
    {body : Text}
    (inside : startsClosing (first :: body) = false)
    (rest : Text) :
    startsClosing (first :: (body ++ '*' :: '/' :: rest)) = false := by
  refine Bool.eq_false_iff.2 fun closing => ?_
  obtain ⟨tail, rfl, equal⟩ := startsClosing_iff.1 closing
  cases body with
  | nil => cases equal
  | cons next more =>
      obtain ⟨rfl, -⟩ := List.cons.inj equal
      simp [startsClosing] at inside

end Text

namespace Space

/-- The space as a new cell. -/
def renewed (space : Space) : Space :=
  build space.whitespace space.comments

@[simp] theorem whitespace_renewed (space : Space) : space.renewed.whitespace = space.whitespace := by
  simp [renewed]

@[simp] theorem comments_renewed (space : Space) : space.renewed.comments = space.comments := by
  simp [renewed]

@[simp] theorem renewed_renewed (space : Space) : space.renewed.renewed = space.renewed := by
  simp [renewed]

@[simp] theorem renewed_empty : empty.renewed = empty := rfl

@[simp] theorem renewed_build
    (whitespace : Text)
    (comments : List Comment) :
    (build whitespace comments).renewed = build whitespace comments := by
  simp [renewed]

@[simp] theorem render_renewed
    (delimiters : CommentDelimiters)
    (space : Space) :
    space.renewed.render delimiters = space.render delimiters := by
  simp [render]

@[simp] theorem renewed_format (text : Text) : (format text).renewed = format text :=
  renewed_build _ _

theorem isGapTo_renewed
    {final : Bool}
    {space : Space} :
    space.renewed.IsGapTo final ↔ space.IsGapTo final := by
  constructor
  · rintro ⟨blank, closed, paired⟩
    exact ⟨by simpa using blank, by simpa using closed, by simpa [IsPaired] using paired⟩
  · rintro ⟨blank, closed, paired⟩
    exact ⟨by simpa using blank, by simpa using closed, by simpa [IsPaired] using paired⟩

end Space

section Scan

variable {text rest run after opened : Text}

/-! ## Scanning what was written -/

theorem scanGap_of_isSolid
    (solid : text.isSolid = true) :
    scanGap text = .ok ([], text) := by
  cases text with
  | nil => rfl
  | cons first rest =>
      obtain ⟨notBlank, plain⟩ : Text.isBlank first = false ∧
          Text.startsComment (first :: rest) = false := by
        simpa [Text.isSolid] using solid
      exact scanGap_of_solid plain notBlank

/-- Blanks before a gap belong to the gap. -/
theorem scanGap_append_blank
    {whitespace : Text}
    (blank : whitespace.all Text.isBlank = true)
    (scanned : scanGap text = .ok (run, after)) :
    scanGap (whitespace ++ text) = .ok (whitespace ++ run, after) := by
  induction whitespace with
  | nil => exact scanned
  | cons first more ih =>
      obtain ⟨firstBlank, moreBlank⟩ : Text.isBlank first = true ∧ more.all Text.isBlank = true := by
        simpa using blank
      exact (scanGap_of_isBlank firstBlank).2 ⟨more ++ run, ih moreBlank, rfl⟩

theorem scanLine_append
    {body : Text}
    (inside : body.hasNoBreak = true)
    (scanned : scanLine text = .ok (run, after)) :
    scanLine (body ++ text) = .ok (body ++ run, after) := by
  induction body with
  | nil => exact scanned
  | cons first more ih =>
      obtain ⟨⟨noFeed, -⟩, moreInside⟩ :
          (first ≠ '\n' ∧ first ≠ '\r') ∧ Text.hasNoBreak more = true := by
        simpa [Text.hasNoBreak] using inside
      exact (scanLine_eq_ok noFeed).2 ⟨more ++ run, ih moreInside, rfl⟩

theorem scanBlock_append
    {body : Text}
    (inside : body.hasNoClosing = true)
    (scanned : scanGap text = .ok (run, after)) :
    scanBlock opened (body ++ '*' :: '/' :: text) = .ok (body ++ '*' :: '/' :: run, after) := by
  induction body with
  | nil => exact scanBlock_close_eq_ok.2 ⟨run, scanned, rfl⟩
  | cons first more ih =>
      obtain ⟨notClosing, moreInside⟩ : Text.startsClosing (first :: more) = false ∧
          Text.hasNoClosing more = true := by
        simpa [Text.hasNoClosing] using inside
      have stillInside := Text.startsClosing_append_close notClosing text
      exact (scanBlock_eq_ok stillInside).2 ⟨more ++ '*' :: '/' :: run, ih moreInside, rfl⟩

/-- A line break ends a line comment, and the blanks after it belong to the gap. -/
theorem scanLine_append_suffix
    {suffix : Text}
    (breaks : suffix.startsBreak = true)
    (blank : suffix.all Text.isBlank = true)
    (scanned : scanGap text = .ok (run, after)) :
    scanLine (suffix ++ text) = .ok (suffix ++ run, after) := by
  unfold Text.startsBreak at breaks
  split at breaks
  · next tail =>
      have tailBlank : tail.all Text.isBlank = true := by
        simp only [List.all_cons, Bool.and_eq_true] at blank
        exact blank.2
      exact scanLine_break_eq_ok.2 ⟨tail ++ run, scanGap_append_blank tailBlank scanned, rfl⟩
  · next tail =>
      have tailBlank : tail.all Text.isBlank = true := by
        simp only [List.all_cons, Bool.and_eq_true] at blank
        exact blank.2.2
      have fed := scanLine_break_eq_ok.2 ⟨tail ++ run, scanGap_append_blank tailBlank scanned, rfl⟩
      have other : '\r' ≠ '\n' := by decide
      exact (scanLine_eq_ok other).2 ⟨'\n' :: (tail ++ run), fed, rfl⟩
  · cases breaks

/-- The last line comment of a text needs no line break. -/
theorem scanLine_suffix_at_end
    {suffix : Text}
    (ends : suffix = [] ∨ suffix = ['\r']) :
    scanLine suffix = .ok (suffix, []) := by
  rcases ends with rfl | rfl <;> rfl

/-- A comment that can stand in a gap is scanned as a whole, with the blanks after it. -/
theorem scanGap_comment
    {last : Bool}
    {comment : Comment}
    (closed : comment.IsClosed last)
    (scanned : scanGap text = .ok (run, after))
    (atEnd : last = true -> text = []) :
    scanGap (comment.render .slash ++ (comment.suffix ++ text)) =
      .ok (comment.render .slash ++ (comment.suffix ++ run), after) := by
  obtain ⟨blank, -, contained, ended⟩ := closed
  obtain ⟨isBlock, body, suffix, markers⟩ := comment
  cases isBlock with
  | true =>
      have inside : body.hasNoClosing = true := contained
      have behind := scanGap_append_blank blank scanned
      simp only [Comment.render, List.cons_append, List.nil_append, List.append_assoc]
      exact scanGap_block_eq_ok.2 ⟨_, scanBlock_append inside behind, rfl⟩
  | false =>
      have inside : body.hasNoBreak = true := contained
      have behind : scanLine (suffix ++ text) = .ok (suffix ++ run, after) := by
        rcases ended with breaks | ⟨isLast, ends⟩
        · exact scanLine_append_suffix (by simpa [Comment.isEnded] using breaks) blank scanned
        · obtain rfl := atEnd isLast
          obtain ⟨rfl, rfl⟩ : [] = run ∧ [] = after := by simpa using scanned
          rw [List.append_nil]
          exact scanLine_suffix_at_end ends
      simp only [Comment.render, List.cons_append, List.nil_append]
      exact scanGap_line_eq_ok.2 ⟨_, scanLine_append inside behind, rfl⟩

/-- Comments that can stand in a gap are scanned as a whole. -/
theorem scanGap_renderAll
    {final : Bool}
    {comments : List Comment}
    (closed : Comment.AllClosed final comments)
    (solid : rest.isSolid = true)
    (atEnd : final = true -> rest = []) :
    scanGap (Comment.renderAll comments ++ rest) = .ok (Comment.renderAll comments, rest) := by
  induction comments with
  | nil => exact scanGap_of_isSolid solid
  | cons comment others ih =>
      have whole := scanGap_comment closed.1 (ih closed.2) fun isLast => by
        obtain ⟨isFinal, isEmpty⟩ : final = true ∧ others = [] := by simpa using isLast
        simp [isEmpty, atEnd isFinal]
      simpa using whole

/-- A gap that is written before a token is scanned as a whole. -/
theorem scanGap_render
    {final : Bool}
    {space : Space}
    (isGap : space.IsGapTo final)
    (solid : rest.isSolid = true)
    (atEnd : final = true -> rest = []) :
    scanGap (space.render .slash ++ rest) = .ok (space.render .slash, rest) := by
  rw [Space.render_slash, List.append_assoc]
  exact scanGap_append_blank isGap.blank (scanGap_renderAll isGap.closed solid atEnd)

end Scan

/-! ## Splitting what was written -/

namespace Space

variable {text : Text} {delimiters : CommentDelimiters}

theorem splitGap_append_blank
    {whitespace : Text}
    (blank : whitespace.all Text.isBlank = true) :
    splitGap delimiters (whitespace ++ text) =
      (whitespace ++ (splitGap delimiters text).1, (splitGap delimiters text).2) := by
  induction whitespace with
  | nil => rfl
  | cons first more ih =>
      obtain ⟨firstBlank, moreBlank⟩ : Text.isBlank first = true ∧ more.all Text.isBlank = true := by
        simpa using blank
      rw [List.cons_append, splitGap_of_isBlank firstBlank, ih moreBlank]
      rfl

theorem splitLine_append
    {body : Text}
    (inside : body.hasNoBreak = true) :
    splitLine delimiters (body ++ text) =
      (body ++ (splitLine delimiters text).1, (splitLine delimiters text).2) := by
  induction body with
  | nil => rfl
  | cons first more ih =>
      obtain ⟨⟨noFeed, noReturn⟩, moreInside⟩ :
          (first ≠ '\n' ∧ first ≠ '\r') ∧ Text.hasNoBreak more = true := by
        simpa [Text.hasNoBreak] using inside
      rw [List.cons_append, splitLine_cons noFeed noReturn, ih moreInside]
      rfl

theorem splitBlock_append
    {body : Text}
    (inside : body.hasNoClosing = true) :
    splitBlock delimiters (body ++ '*' :: '/' :: text) = (body, splitGap delimiters text) := by
  induction body with
  | nil => exact splitBlock_close
  | cons first more ih =>
      obtain ⟨notClosing, moreInside⟩ : Text.startsClosing (first :: more) = false ∧
          Text.hasNoClosing more = true := by
        simpa [Text.hasNoClosing] using inside
      have stillInside := Text.startsClosing_append_close notClosing text
      rw [List.cons_append, splitBlock_cons stillInside, ih moreInside]

/-- The whitespace after a line comment that is not the last one starts where the comment ends. -/
theorem splitLine_append_suffix
    {suffix : Text}
    (breaks : suffix.startsBreak = true)
    (blank : suffix.all Text.isBlank = true) :
    splitLine .slash (suffix ++ text) =
      ([], suffix ++ (splitGap .slash text).1, (splitGap .slash text).2) := by
  cases suffix with
  | nil => cases breaks
  | cons first more =>
      obtain ⟨firstBlank, moreBlank⟩ : Text.isBlank first = true ∧ more.all Text.isBlank = true := by
        simpa using blank
      have ends : first = '\n' ∨ first = '\r' := by
        unfold Text.startsBreak at breaks
        split at breaks
        · next equal => exact .inl (List.cons.inj equal).1
        · next equal => exact .inr (List.cons.inj equal).1
        · cases breaks
      rw [List.cons_append, splitLine_break ends, splitGap_append_blank moreBlank]
      rfl

/-- A comment that can stand in a gap is split off with the blanks after it. -/
theorem splitGap_comment
    {last : Bool}
    {comment : Comment}
    (closed : comment.IsClosed last)
    (noBlank : (splitGap .slash text).1 = [])
    (atEnd : last = true -> text = []) :
    splitGap .slash (comment.render .slash ++ (comment.suffix ++ text)) =
      ([], comment :: (splitGap .slash text).2) := by
  obtain ⟨blank, unmarked, contained, ended⟩ := closed
  obtain ⟨isBlock, body, suffix, markers⟩ := comment
  obtain rfl : markers = .empty := unmarked
  have behind : splitGap .slash (suffix ++ text) = (suffix, (splitGap .slash text).2) := by
    rw [splitGap_append_blank blank, noBlank, List.append_nil]
  cases isBlock with
  | true =>
      have inside : body.hasNoClosing = true := contained
      simp only [Comment.render, List.cons_append, List.nil_append, List.append_assoc]
      rw [splitGap_block, splitBlock_append inside, behind]
      rfl
  | false =>
      have inside : body.hasNoBreak = true := contained
      have atSuffix : splitLine .slash (suffix ++ text) = ([], suffix, (splitGap .slash text).2) := by
        rcases ended with breaks | ⟨isLast, ends⟩
        · have startsBreak : suffix.startsBreak = true := by simpa [Comment.isEnded] using breaks
          rw [splitLine_append_suffix startsBreak blank, noBlank, List.append_nil]
        · obtain rfl := atEnd isLast
          rcases ends with rfl | rfl <;> rfl
      simp only [Comment.render, List.cons_append, List.nil_append]
      rw [splitGap_line, splitLine_append inside, atSuffix, List.append_nil]
      rfl

/-- Comments that can stand in a gap are split into themselves. -/
theorem splitGap_renderAll
    {final : Bool}
    {comments : List Comment}
    (closed : Comment.AllClosed final comments) :
    splitGap .slash (Comment.renderAll comments) = ([], comments) := by
  induction comments with
  | nil => rfl
  | cons comment others ih =>
      have others_split := ih closed.2
      have whole := splitGap_comment closed.1
        (by rw [others_split]) fun isLast => by
          obtain ⟨-, isEmpty⟩ : final = true ∧ others = [] := by simpa using isLast
          simp [isEmpty]
      rw [others_split] at whole
      simpa using whole

/-- A gap splits into itself. -/
theorem format_render
    {final : Bool}
    {space : Space}
    (isGap : space.IsGapTo final) :
    format (space.render .slash) = space.renewed := by
  rw [render_slash, format, formatWith, splitGap_append_blank isGap.blank,
    splitGap_renderAll isGap.closed, List.append_nil]
  rfl

theorem head?_renderAll_ne (comments : List Comment) :
    (Comment.renderAll comments).head? ≠ some '\n' := by
  cases comments with
  | nil => simp
  | cons first rest =>
      obtain ⟨isBlock, text, suffix, markers⟩ := first
      cases isBlock <;> simp [Comment.render]

/-- Comments that are written with paired returns have them in every text. -/
theorem isPaired_of_renderAll
    {final : Bool}
    {comments : List Comment}
    (closed : Comment.AllClosed final comments)
    (paired : (Comment.renderAll comments).hasPairedReturns = true) :
    forall comment, comment ∈ comments -> comment.IsPaired := by
  induction comments with
  | nil => simp
  | cons first rest ih =>
      rw [Comment.renderAll_cons] at paired
      refine List.forall_mem_cons.2 ⟨⟨?_, ?_⟩, ih closed.2 (Text.hasPairedReturns_of_append paired)⟩
      · obtain ⟨-, -, contained, -⟩ := closed.1
        cases kind : first.isBlock with
        | true =>
            have written : first.render .slash = ['/', '*'] ++ (first.text ++ ['*', '/']) := by
              simp [Comment.render, kind]
            rw [written, List.append_assoc, List.append_assoc, List.append_assoc] at paired
            exact Text.hasPairedReturns_left (Text.hasPairedReturns_of_append paired) (by simp)
        | false =>
            rw [Comment.isContained, kind, if_neg Bool.false_ne_true] at contained
            exact Text.hasPairedReturns_of_hasNoBreak contained
      · rw [List.append_assoc] at paired
        exact Text.hasPairedReturns_left (Text.hasPairedReturns_of_append paired)
          (head?_renderAll_ne rest)

/-- A space that is written with paired returns has them in every text. -/
theorem isPaired_of_render
    {final : Bool}
    {space : Space}
    (closed : Comment.AllClosed final space.comments)
    (paired : (space.render .slash).hasPairedReturns = true) :
    space.IsPaired := by
  rw [render_slash] at paired
  exact ⟨Text.hasPairedReturns_left paired (head?_renderAll_ne space.comments),
    isPaired_of_renderAll closed (Text.hasPairedReturns_of_append paired)⟩

/-- A run that was scanned in a text with paired returns splits into a gap, written as it was. -/
theorem format_of_scanGap
    {run after : Text}
    (paired : text.hasPairedReturns = true)
    (scanned : scanGap text = .ok (run, after)) :
    (format run).render .slash = run ∧ (format run).IsGapTo after.isEmpty := by
  have agrees := splitAgrees_of_scanGap scanned fun comment member =>
    endsAtReturn_of_hasPairedReturns paired member
  have written : (format run).render .slash = run := by
    simpa [render_slash, format, formatWith] using agrees.written
  have closed : Comment.AllClosed after.isEmpty (format run).comments := by
    simpa [format, formatWith] using agrees.closed
  refine ⟨written, ?_, closed, isPaired_of_render closed ?_⟩
  · simpa [format, formatWith] using agrees.blank
  · rw [eq_append_of_scanGap scanned] at paired
    rw [written]
    exact Text.hasPairedReturns_left paired (Text.head?_ne_of_isSolid (isSolid_of_scanGap scanned))

/-- Only the empty space is written as nothing. -/
theorem render_eq_nil_iff (space : Space) : space.render .slash = [] ↔ space.isEmpty = true := by
  obtain ⟨stamp, whitespace, comments⟩ := space
  cases comments with
  | nil => simp [render, isEmpty]
  | cons comment rest =>
      have rendered : comment.render .slash ≠ [] := by
        unfold Comment.render
        split <;> simp
      simp [render, isEmpty, rendered]

end Space

/-! ## Parsers of gaps -/

namespace Parser

variable {text rest : Text} {space : Space} {final : Bool}

/-- A parser reads a written gap back. -/
theorem gap_render
    (isGap : space.IsGapTo final)
    (solid : rest.isSolid = true)
    (atEnd : final = true -> rest = []) :
    gap (space.render .slash ++ rest) = .ok (space.renewed, rest) :=
  gap_eq_ok.2 ⟨space.render .slash, scanGap_render isGap solid atEnd, Space.format_render isGap⟩

/-- A gap inside a text is read back. -/
theorem gap_render_inner
    (isGap : space.IsGap)
    (solid : rest.isSolid = true) :
    gap (space.render .slash ++ rest) = .ok (space.renewed, rest) :=
  gap_render isGap solid fun isFinal => absurd isFinal Bool.false_ne_true

/-- A parser looks behind a written gap. -/
theorem isNextAfterGap_render
    (isGap : space.IsGapTo final)
    (solid : rest.isSolid = true)
    (atEnd : final = true -> rest = [])
    (pattern : Text) :
    isNextAfterGap pattern (space.render .slash ++ rest) =
      .ok ((Text.dropStart? pattern rest).isSome, space.render .slash ++ rest) :=
  isNextAfterGap_eq_ok.2 ⟨rfl, _, rest, scanGap_render isGap solid atEnd, rfl⟩

/-- The spaces that a parser reads of a text with paired returns are gaps, and written as they were. -/
theorem gap_sound
    (paired : text.hasPairedReturns = true)
    (read : gap text = .ok (space, rest)) :
    text = space.render .slash ++ rest ∧ space.IsGapTo rest.isEmpty ∧ rest.isSolid = true := by
  obtain ⟨run, scanned, rfl⟩ := gap_eq_ok.1 read
  obtain ⟨written, isGap⟩ := Space.format_of_scanGap paired scanned
  rw [written]
  exact ⟨eq_append_of_scanGap scanned, isGap, isSolid_of_scanGap scanned⟩

/-- A gap that is read before something else can be followed by anything. -/
theorem isGap_of_gap
    (paired : text.hasPairedReturns = true)
    (read : gap text = .ok (space, rest))
    (more : rest ≠ []) :
    space.IsGap := by
  obtain ⟨-, isGap, -⟩ := gap_sound paired read
  rwa [List.isEmpty_eq_false_iff.2 more] at isGap

end Parser

/-!
## Padding as new cells

A copy of a space, of markers or of a padding says the same in cells of its own: as if it had just been built, or
numbered.
-/

/-- The fact with its space as a new cell. -/
def Fact.renewed : Fact Space -> Fact Space
  | .trailingComma suffix => .trailingComma suffix.renewed
  | fact => fact

/-- New markers that say the same. -/
def Markers.renewed (markers : Markers Space) : Markers Space :=
  Markers.empty.withMarkers (markers.toList.map fun marker => .build marker.fact.renewed)

theorem Markers.renewed_of_toList
    {markers : Markers Space}
    (none : markers.toList = []) :
    markers.renewed = .empty := by
  simp [renewed, none, withMarkers]

@[simp] theorem Markers.renewed_empty : (empty : Markers Space).renewed = empty :=
  renewed_of_toList rfl

/-- New padding around a renewed element. -/
def RightPadded.renewed
    (child : α -> β)
    (padded : RightPadded α) : RightPadded β :=
  ⟨child padded.element, padded.after.renewed, padded.markers.renewed⟩

/-- New padding around a renewed element. -/
def LeftPadded.renewed
    (child : α -> β)
    (padded : LeftPadded α) : LeftPadded β :=
  ⟨padded.before.renewed, child padded.element, padded.markers.renewed⟩

/-- A new container of renewed elements. -/
def Container.renewed
    (child : α -> β)
    (list : Container α) : Container β :=
  ⟨list.before.renewed, list.padded.map (·.renewed child), list.markers.renewed⟩

/-- Only the empty space is renewed as the empty space. -/
theorem Space.renewed_of_isEmpty
    {space : Space}
    (isEmpty : space.isEmpty = true) :
    space.renewed = .empty := by
  obtain ⟨blank, none⟩ : space.whitespace = [] ∧ space.comments = [] := by
    simpa [Space.isEmpty] using isEmpty
  rw [Space.renewed, blank, none]
  rfl

/-! ### Numbering -/

/-- Numbering the comments of a gap leaves them alone, none having markers. -/
theorem Comment.settle_all
    {final : Bool}
    {comments : List Comment}
    (closed : Comment.AllClosed final comments)
    (next : Nat) :
    (comments.mapM Comment.settle).run next = (comments, next) := by
  induction comments with
  | nil => rfl
  | cons first rest ih =>
      obtain ⟨isBlock, text, suffix, markers⟩ := first
      obtain ⟨⟨-, noMarkers, -⟩, others⟩ := closed
      obtain rfl : markers = .empty := noMarkers
      rw [List.mapM_cons]
      change (Prod.map _ id ((rest.mapM Comment.settle).run next)) = _
      rw [ih others]
      rfl

/-- A numbered gap has the same content. -/
theorem Space.renewed_settle
    {final : Bool}
    {space : Space}
    (isGap : space.IsGapTo final)
    (next : Nat) :
    (space.settle.run next).1.renewed = space.renewed := by
  change Space.build _ (((space.comments.mapM Comment.settle).run _).1) = _
  rw [Comment.settle_all isGap.closed]
  rfl

end Lossless
