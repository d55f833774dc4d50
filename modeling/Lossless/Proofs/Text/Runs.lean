import Lossless.Proofs.Gap.Reading

/-!
# Runs of characters

The longest run of characters of a class, and where it ends. A name goes on neither in a gap nor in punctuation.
-/

namespace Lossless

namespace Text

variable {test : Char -> Bool} {run rest : Text}

/-- The first character is of a class. -/
def startsIn (test : Char -> Bool) : Text -> Bool
  | [] => false
  | first :: _ => test first

/-- A test that no character of a list passes. -/
theorem eq_false_of_mem
    {characters : List Char}
    (nonePasses : characters.any test = false)
    {char : Char}
    (member : char ∈ characters) :
    test char = false :=
  Bool.eq_false_iff.2 (List.any_eq_false.1 nonePasses char member)

theorem startsIn_of_startsIn
    {other : Char -> Bool}
    {text : Text}
    (wider : forall {char}, test char = true -> other char = true)
    (starts : text.startsIn test = true) :
    text.startsIn other = true := by
  cases text with
  | nil => cases starts
  | cons first rest => exact wider starts

theorem startsIn_append
    {text : Text}
    (starts : text.startsIn test = true)
    (rest : Text) :
    (text ++ rest).startsIn test = true := by
  cases text with
  | nil => cases starts
  | cons first more => exact starts

theorem startsIn_dropWhile
    (test : Char -> Bool)
    (text : Text) :
    startsIn test (text.dropWhile test) = false := by
  induction text with
  | nil => rfl
  | cons first rest ih =>
      cases inside : test first with
      | false => simp [inside, startsIn]
      | true =>
          rw [List.dropWhile_cons_of_pos inside]
          exact ih

theorem takeWhile_run
    (inside : run.all test = true)
    (outside : rest.startsIn test = false) :
    (run ++ rest).takeWhile test = run := by
  induction run with
  | nil =>
      cases rest with
      | nil => rfl
      | cons first rest =>
          have outsideFirst : test first = false := outside
          simp [outsideFirst]
  | cons first more ih =>
      obtain ⟨firstInside, moreInside⟩ : test first = true ∧ more.all test = true := by
        simpa using inside
      simpa [firstInside] using ih moreInside

theorem dropWhile_run
    (inside : run.all test = true)
    (outside : rest.startsIn test = false) :
    (run ++ rest).dropWhile test = rest := by
  have whole := List.takeWhile_append_dropWhile (p := test) (l := run ++ rest)
  rw [takeWhile_run inside outside] at whole
  exact List.append_cancel_left whole

theorem all_takeWhile
    (test : Char -> Bool)
    (text : Text) :
    (text.takeWhile test).all test = true := by
  induction text with
  | nil => rfl
  | cons first rest ih =>
      cases inside : test first with
      | false => simp [inside]
      | true => simp [inside]

/-- The longest run of a class is where the text leaves the class. -/
theorem takeWhile_eq_iff
    {text : Text} :
    (text.takeWhile test = run ∧ text.dropWhile test = rest) ↔
      text = run ++ rest ∧ run.all test = true ∧ rest.startsIn test = false := by
  constructor
  · rintro ⟨rfl, rfl⟩
    exact ⟨List.takeWhile_append_dropWhile.symm, all_takeWhile test text,
      startsIn_dropWhile test text⟩
  · rintro ⟨rfl, inside, outside⟩
    exact ⟨takeWhile_run inside outside, dropWhile_run inside outside⟩

/-! ## Character classes -/

theorem isIdentifierPart_of_isIdentifierStart
    {char : Char}
    (starts : isIdentifierStart char = true) :
    isIdentifierPart char = true := by
  unfold isIdentifierStart at starts
  unfold isIdentifierPart
  cases letter : isAlphabetic char with
  | false =>
      simp only [letter, Bool.false_or, Bool.or_eq_true] at starts
      rcases starts with low | dollar
      · simp [low]
      · simp [dollar]
  | true =>
      have alphanumeric : isAlphanumeric char = true := by
        unfold isAlphabetic at letter
        unfold isAlphanumeric
        split at letter
        · next ascii => simp [ascii, Char.isAlphanum, letter]
        · next beyond => simp [beyond, letter]
      simp [alphanumeric]

theorem isIdentifierPart_of_isDigit
    {char : Char}
    (isDigit : char.isDigit = true) :
    isIdentifierPart char = true := by
  have digit := isDigit
  simp only [Char.isDigit, Bool.and_eq_true, decide_eq_true_eq, UInt32.le_iff_toNat_le] at digit
  have upper : char.val.toNat ≤ 57 := digit.2
  have ascii : char.toNat < 128 := Nat.lt_of_le_of_lt upper (by decide)
  simp [isIdentifierPart, isAlphanumeric, ascii, Char.isAlphanum, isDigit]

theorem isIdentifierStart_of_isDigit
    {char : Char}
    (isDigit : char.isDigit = true) :
    isIdentifierStart char = false := by
  simp only [Char.isDigit, Bool.and_eq_true, decide_eq_true_eq, UInt32.le_iff_toNat_le] at isDigit
  have lower : 48 ≤ char.toNat := isDigit.1
  have upper : char.toNat ≤ 57 := isDigit.2
  have noAlpha : char.isAlpha = false := by
    have noUpper : ¬ 'A'.toNat ≤ char.toNat := Nat.not_le.2 (Nat.lt_of_le_of_lt upper (by decide))
    have noLower : ¬ 'a'.toNat ≤ char.toNat := Nat.not_le.2 (Nat.lt_of_le_of_lt upper (by decide))
    refine Bool.or_eq_false_iff.2 ⟨?upper, ?lower⟩
    case upper => exact decide_eq_false fun inside => noUpper inside.1
    case lower => exact Bool.and_eq_false_imp.2 fun inside => absurd (of_decide_eq_true inside) noLower
  have noLow : char ≠ '_' := by
    rintro rfl
    exact absurd upper (by decide)
  have noDollar : char ≠ '$' := by
    rintro rfl
    exact absurd lower (by decide)
  have ascii : char.toNat < 128 := Nat.lt_of_le_of_lt upper (by decide)
  simp [isIdentifierStart, isAlphabetic, ascii, noAlpha, noLow, noDollar]

/-- The code points of the blanks. -/
def blankCodePoints : List Nat :=
  [0x9, 0xa, 0xb, 0xc, 0xd, 0x20, 0x85, 0xa0, 0x1680, 0x2000, 0x2001, 0x2002, 0x2003, 0x2004,
    0x2005, 0x2006, 0x2007, 0x2008, 0x2009, 0x200a, 0x2028, 0x2029, 0x202f, 0x205f, 0x3000]

theorem toNat_mem_blankCodePoints
    {char : Char}
    (blank : isBlank char = true) :
    char.toNat ∈ blankCodePoints := by
  have inRange (low length : Nat)
      (areBlanks : forall number, number ∈ List.range' low length -> number ∈ blankCodePoints)
      (within : low ≤ char.toNat ∧ char.toNat < low + length) :
      char.toNat ∈ blankCodePoints :=
    areBlanks _ (List.mem_range'_1.2 within)
  simp only [isBlank, Bool.or_eq_true, Bool.and_eq_true, decide_eq_true_eq, beq_iff_eq] at blank
  rcases blank with (((((((((tabs | single) | single) | single) | single) | spaces) | single) | single) | single) | single) |
    single
  · exact inRange 0x9 5 (by decide) ⟨tabs.1, Nat.lt_succ_of_le tabs.2⟩
  case inl.inl.inl.inl.inl.inr => exact inRange 0x2000 11 (by decide) ⟨spaces.1, Nat.lt_succ_of_le spaces.2⟩
  all_goals
    rw [single]
    decide

/-- No blank passes a test that none of the code points of the blanks passes. -/
theorem eq_false_of_isBlank
    {char : Char}
    {test : Char -> Bool}
    (all : forall number, number ∈ blankCodePoints -> test (Char.ofNat number) = false)
    (blank : isBlank char = true) :
    test char = false := by
  have atChar := all char.toNat (toNat_mem_blankCodePoints blank)
  rwa [Char.ofNat_toNat] at atChar

/-- A blank stands in no name. -/
theorem isIdentifierPart_of_isBlank
    {char : Char}
    (blank : isBlank char = true) :
    isIdentifierPart char = false :=
  eq_false_of_isBlank (by decide +kernel) blank

/-- Text that starts with a character that is no blank and no slash goes on with a token. -/
theorem isSolid_cons
    {first : Char}
    (notBlank : isBlank first = false)
    (notSlash : first ≠ '/')
    (rest : Text) :
    isSolid (first :: rest) = true := by
  have plain : startsComment (first :: rest) = false := by
    unfold startsComment
    split <;> simp_all
  simp [isSolid, notBlank, plain]

/-- A word is a token. -/
theorem isSolid_of_startsIn
    {text : Text}
    (starts : text.startsIn isIdentifierPart = true) :
    text.isSolid = true := by
  cases text with
  | nil => rfl
  | cons first rest =>
      have inside : isIdentifierPart first = true := starts
      refine isSolid_cons (Bool.eq_false_iff.2 fun blank => ?_) ?_ rest
      · rw [isIdentifierPart_of_isBlank blank] at inside
        cases inside
      · rintro rfl
        revert inside
        decide +kernel

end Text

namespace Space

/-- A gap starts with a blank or a comment, and without either what is behind it starts the text. -/
theorem startsIn_render
    {space : Space}
    {test : Char -> Bool}
    {rest : Text}
    (noBlank : forall {char}, Text.isBlank char = true -> test char = false)
    (noSlash : test '/' = false)
    (blank : space.whitespace.all Text.isBlank = true)
    (behind : space.isEmpty = true -> rest.startsIn test = false) :
    (space.render .slash ++ rest).startsIn test = false := by
  obtain ⟨stamp, whitespace, comments⟩ := space
  cases whitespace with
  | cons first more =>
      have firstBlank : Text.isBlank first = true := by
        simp only [List.all_cons, Bool.and_eq_true] at blank
        exact blank.1
      exact noBlank firstBlank
  | nil =>
      cases comments with
      | nil => exact behind rfl
      | cons comment others =>
          have slashFirst : ∃ tail, comment.render .slash = '/' :: tail := by
            unfold Comment.render
            split
            · exact ⟨_, rfl⟩
            · exact ⟨_, rfl⟩
            · contradiction
          obtain ⟨tail, rendered⟩ := slashFirst
          simp only [render, List.flatMap_cons, rendered]
          exact noSlash

/-- A word does not go on in the gap behind it. -/
theorem startsIn_render_identifierPart
    {space : Space}
    {final : Bool}
    {rest : Text}
    (isGap : space.IsGapTo final)
    (behind : space.isEmpty = true -> rest.startsIn Text.isIdentifierPart = false) :
    (space.render .slash ++ rest).startsIn Text.isIdentifierPart = false :=
  startsIn_render Text.isIdentifierPart_of_isBlank (by decide +kernel) isGap.blank behind

end Space

end Lossless
