import Formulary.Proofs.Source.Lexemes

namespace Formulary

/-!
# Decimal numbers

The decimal number that is read from the front of a text is the longest one: a
number that is written there has the same parts, or goes on.
-/

namespace Lexical

open Lexeme

/-- An exponent with all the digits that follow it. -/
theorem exponentText?_append
    {mark : Char}
    {sign digits : List Char}
    (isMark : mark ∈ ['e', 'E'])
    (isSign : sign ∈ [[], ['+'], ['-']])
    (given : digits ≠ [])
    (all : ∀ c ∈ digits, c.isDigit = true)
    (rest : List Char) :
    exponentText? (mark :: (sign ++ digits) ++ rest) =
      some ⟨sign, digits ++ rest.takeWhile Char.isDigit⟩ := by
  have isExponent : mark = 'e' ∨ mark = 'E' := by simpa using isMark
  have run :
      (digits ++ rest).takeWhile Char.isDigit =
        digits ++ rest.takeWhile Char.isDigit :=
    List.takeWhile_append_of_pos all
  obtain ⟨first, others, rfl⟩ := List.exists_cons_of_ne_nil given
  have isDigit := isDigit_iff.mp (all first List.mem_cons_self)
  have notPlus : first ≠ '+' := by rintro rfl; exact absurd isDigit (by decide)
  have notMinus : first ≠ '-' := by rintro rfl; exact absurd isDigit (by decide)
  rw [List.cons_append] at run
  simp only [List.mem_cons, List.not_mem_nil, or_false] at isSign
  rcases isSign with rfl | rfl | rfl <;>
    simp [exponentText?, isExponent, notPlus, notMinus, run]

/-- The sign at the front of a text. -/
theorem sign_starts (text : List Char) :
    (text.take 1).filter (fun c => c = '+' ∨ c = '-') ∈ [[], ['+'], ['-']] ∧
      (text.take 1).filter (fun c => c = '+' ∨ c = '-') <+: text := by
  cases text with
  | nil => simp
  | cons c others =>
      by_cases isPlus : c = '+'
      · simp [isPlus]
      by_cases isMinus : c = '-'
      · simp [isMinus]
      · simp [isPlus, isMinus]

/-- The exponent that is read is written at the front of the text. -/
theorem exponentSpelled_exponentText? (text : List Char) :
    ∃ front, front <+: text ∧ ExponentSpelled (exponentText? text) front := by
  have absent : ∃ front, front <+: text ∧ ExponentSpelled none front :=
    ⟨[], List.nil_prefix, .absent⟩
  cases text with
  | nil => exact absent
  | cons mark rest =>
      obtain ⟨sign, isFront⟩ :
          ∃ sign, sign = (rest.take 1).filter fun c => c = '+' ∨ c = '-' :=
            ⟨_, rfl⟩
      obtain ⟨isSign, signStarts⟩ := sign_starts rest
      rw [← isFront] at isSign signStarts
      obtain ⟨afterSign, rfl⟩ := signStarts
      simp only [exponentText?, ← isFront, List.drop_left]
      split
      · rename_i isExponent
        split
        · exact absent
        · rename_i given
          rw [List.isEmpty_iff] at given
          have isMark : mark ∈ ['e', 'E'] := by simpa using isExponent
          refine ⟨_, ?_, .present isMark isSign given fun c =>
            List.mem_takeWhile_imp⟩
          rw [List.cons_prefix_cons, List.prefix_append_right_inj]
          exact ⟨rfl, List.takeWhile_prefix _⟩
      · exact absent

theorem ExponentSpelled.length_eq
    {exponent : Option ExponentText}
    {text : List Char}
    (spelled : ExponentSpelled exponent text) :
    (NumberText.exponentChars exponent).length = text.length := by
  cases spelled <;> rfl

/--
An exponent that is written at the front of a text is the one that is read, or a
shorter one.
-/
theorem ExponentSpelled.read
    {exponent : Option ExponentText}
    {front : List Char}
    (spelled : ExponentSpelled exponent front)
    (rest : List Char) :
    exponentText? (front ++ rest) = exponent ∨
      front.length <
        (NumberText.exponentChars (exponentText? (front ++ rest))).length := by
  cases spelled with
  | absent =>
      cases read : exponentText? ([] ++ rest) with
      | none => exact .inl rfl
      | some part => exact .inr (Nat.succ_pos _)
  | present isMark isSign given all =>
      rw [exponentText?_append isMark isSign given all]
      cases more : rest.takeWhile Char.isDigit with
      | nil => exact .inl (by rw [List.append_nil])
      | cons c others =>
          right
          simp [NumberText.exponentChars]

/-- Where more digits follow, there is neither a fraction nor an exponent. -/
theorem eq_nil_of_digit
    {fraction : Option (List Char)}
    {exponent : Option ExponentText}
    {fractionText exponentText rest others : List Char}
    {digit : Char}
    (fractionSpelled : FractionSpelled fraction fractionText)
    (exponentSpelled : ExponentSpelled exponent exponentText)
    (more : (fractionText ++ exponentText ++ rest).takeWhile Char.isDigit =
      digit :: others) :
    fractionText ++ exponentText = [] := by
  cases fractionSpelled with
  | present => cases more
  | absent =>
      cases exponentSpelled with
      | absent => rfl
      | present isMark =>
          simp only [List.mem_cons, List.not_mem_nil, or_false] at isMark
          rcases isMark with rfl | rfl <;> cases more

/-- The fraction at the front of a text and what follows it. -/
def fractionPart : List Char → Option (List Char) × List Char
  | '.' :: rest =>
      (some (rest.takeWhile Char.isDigit), rest.dropWhile Char.isDigit)
  | rest => (none, rest)

/-- A fraction as it is written. -/
def fractionChars : Option (List Char) → List Char
  | some digits => '.' :: digits
  | none => []

theorem FractionSpelled.eq_chars
    {fraction : Option (List Char)}
    {text : List Char}
    (spelled : FractionSpelled fraction text) :
    fractionChars fraction = text := by
  cases spelled <;> rfl

/-- The fraction that is read is written at the front of the text. -/
theorem fractionSpelled_fractionPart (text : List Char) :
    ∃ front, text = front ++ (fractionPart text).2 ∧
      FractionSpelled (fractionPart text).1 front := by
  unfold fractionPart
  split
  · rename_i rest
    refine ⟨_, ?_, .present fun c => List.mem_takeWhile_imp⟩
    rw [List.cons_append, List.takeWhile_append_dropWhile]
  · exact ⟨[], rfl, .absent⟩

theorem dropWhile_of_takeWhile
    {text : List Char}
    (stops : text.takeWhile Char.isDigit = []) :
    text.dropWhile Char.isDigit = text := by
  have whole :
      text.takeWhile Char.isDigit ++ text.dropWhile Char.isDigit = text :=
    List.takeWhile_append_dropWhile
  rwa [stops] at whole

section Parts

variable
  {fraction : Option (List Char)}
  {exponent : Option ExponentText}
  {fractionText exponentText : List Char}

/--
A fraction and an exponent that are written at the front of a text are the ones
that are read, or those that are read are longer.
-/
theorem FractionSpelled.read
    (fractionSpelled : FractionSpelled fraction fractionText)
    (exponentSpelled : ExponentSpelled exponent exponentText)
    {rest text : List Char}
    (shape : text = fractionText ++ exponentText ++ rest) :
    (fractionPart text).1 = fraction ∧
      exponentText? (fractionPart text).2 = exponent ∨
      (fractionText ++ exponentText).length <
        (fractionChars (fractionPart text).1).length +
          (NumberText.exponentChars
            (exponentText? (fractionPart text).2)).length := by
  subst shape
  cases fractionSpelled with
  | absent =>
      cases exponentSpelled with
      | absent =>
          cases part : (fractionPart ([] ++ [] ++ rest)).1 with
          | some digits => exact .inr (Nat.lt_add_right _ (Nat.succ_pos _))
          | none =>
              obtain ⟨front, split, spelled⟩ :=
                fractionSpelled_fractionPart rest
              rw [show (fractionPart rest).1 = none from part] at spelled
              cases spelled
              have isRest : (fractionPart ([] ++ [] ++ rest)).2 = rest :=
                split.symm
              rw [isRest]
              simpa [fractionChars] using ExponentSpelled.absent.read rest
      | @present mark sign digits isMark isSign given all =>
          have isExponent := ExponentSpelled.present isMark isSign given all
          have notPoint : mark ≠ '.' := by
            rintro rfl; exact absurd isMark (by decide)
          have noFraction :
              fractionPart ([] ++ mark :: (sign ++ digits) ++ rest) =
                (none, mark :: (sign ++ digits) ++ rest) := by
            simp [fractionPart, notPoint]
          rw [noFraction]
          simpa [fractionChars] using isExponent.read rest
  | @present digits all =>
      have pointed :
          '.' :: digits ++ exponentText ++ rest =
            '.' :: (digits ++ (exponentText ++ rest)) := by
        simp
      rw [pointed, fractionPart, List.takeWhile_append_of_pos all,
        List.dropWhile_append_of_pos all]
      dsimp only
      cases more : (exponentText ++ rest).takeWhile Char.isDigit with
      | nil =>
          rw [dropWhile_of_takeWhile more, List.append_nil]
          rcases exponentSpelled.read rest with same | longer
          · exact .inl ⟨rfl, same⟩
          · right
            simp only [fractionChars, List.length_append, List.length_cons]
            omega
      | cons c others =>
          right
          have noExponent : exponentText = [] :=
            eq_nil_of_digit .absent exponentSpelled more
          simp only [noExponent, fractionChars, List.length_append,
            List.length_cons, List.length_nil]
          omega

end Parts

theorem ofText_eq (text : List Char) :
    NumberText.ofText text =
      ⟨text.takeWhile Char.isDigit,
        (fractionPart (text.dropWhile Char.isDigit)).1,
        exponentText? (fractionPart (text.dropWhile Char.isDigit)).2⟩ := by
  rfl

theorem length_spelled (number : NumberText) :
    number.spelled.length =
      number.whole.length + (fractionChars number.fraction).length +
        (NumberText.exponentChars number.exponent).length := by
  rw [NumberText.spelled, List.length_append, List.length_append]
  rfl

theorem NumberSpelled.length_eq
    {number : NumberText}
    {text : List Char}
    (spelled : NumberSpelled number text) :
    number.spelled.length = text.length := by
  cases spelled with
  | number _ fractionSpelled exponentSpelled _ =>
      rw [length_spelled, fractionSpelled.eq_chars, exponentSpelled.length_eq]
      simp only [List.length_append]
      omega

theorem NumberSpelled.ne_nil
    {number : NumberText}
    {text : List Char}
    (spelled : NumberSpelled number text) :
    text ≠ [] := by
  cases spelled with
  | number _ fractionSpelled _ given =>
      intro empty
      obtain ⟨rfl, noTail⟩ := List.append_eq_nil_iff.mp empty
      obtain ⟨rfl, -⟩ := List.append_eq_nil_iff.mp noTail
      cases fractionSpelled
      exact given rfl

/-- The number that is read is written at the front of the text. -/
theorem exists_numberSpelled
    {text : List Char}
    (given :
      (NumberText.ofText text).whole ++
        (NumberText.ofText text).fraction.getD [] ≠ []) :
    ∃ front, front <+: text ∧ NumberSpelled (NumberText.ofText text) front := by
  obtain ⟨fractionText, split, fractionSpelled⟩ :=
    fractionSpelled_fractionPart (text.dropWhile Char.isDigit)
  obtain ⟨exponentText, starts, exponentSpelled⟩ :=
    exponentSpelled_exponentText? (fractionPart (text.dropWhile Char.isDigit)).2
  rw [ofText_eq] at given ⊢
  refine ⟨_, ?_, .number (fun c => List.mem_takeWhile_imp) fractionSpelled
    exponentSpelled given⟩
  obtain ⟨rest, shape⟩ := starts
  refine ⟨rest, ?_⟩
  calc
    text.takeWhile Char.isDigit ++ (fractionText ++ exponentText) ++ rest
      = text.takeWhile Char.isDigit ++
        (fractionText ++ (exponentText ++ rest)) := by simp
    _ = text.takeWhile Char.isDigit ++ text.dropWhile Char.isDigit := by
      rw [shape, ← split]
    _ = text := List.takeWhile_append_dropWhile

/--
A number that is written at the front of a text is the one that is read, or a
shorter one.
-/
theorem NumberSpelled.read
    {number : NumberText}
    {front : List Char}
    (spelled : NumberSpelled number front)
    (rest : List Char) :
    NumberText.ofText (front ++ rest) = number ∨
      front.length < (NumberText.ofText (front ++ rest)).spelled.length := by
  cases spelled with
  | @number whole fractionText exponentText fraction exponent all
        fractionSpelled exponentSpelled
      given =>
      rw [List.append_assoc, length_spelled, ofText_eq,
        List.takeWhile_append_of_pos all, List.dropWhile_append_of_pos all]
      dsimp only
      cases more : (fractionText ++ exponentText ++ rest).takeWhile
          Char.isDigit with
      | nil =>
          rw [dropWhile_of_takeWhile more, List.append_nil]
          rcases fractionSpelled.read exponentSpelled rfl with
              ⟨sameFraction, sameExponent⟩ | longer
          · left
            rw [sameFraction, sameExponent]
          · right
            rw [List.length_append]
            omega
      | cons c others =>
          right
          have noTail := eq_nil_of_digit fractionSpelled exponentSpelled more
          simp only [noTail, List.length_append, List.length_cons,
            List.length_nil]
          omega

/-- A text that starts like a number holds a digit of it. -/
theorem digit_of_startsNumber
    {text : List Char}
    (starts : startsNumber text = true) :
    (NumberText.ofText text).whole ++
      (NumberText.ofText text).fraction.getD [] ≠ [] := by
  simp only [startsNumber, Bool.or_eq_true, Bool.and_eq_true,
    decide_eq_true_eq] at starts
  rw [ofText_eq]
  cases text with
  | nil => simp at starts
  | cons first rest =>
      rcases starts with isDigit | ⟨isPoint, isDigit⟩
      · have isFirst : first.isDigit = true := by simpa using isDigit
        simp [List.takeWhile_cons_of_pos isFirst]
      · cases isPoint
        cases rest with
        | nil => cases isDigit
        | cons second others =>
            have isSecond : second.isDigit = true := by simpa using isDigit
            simp [fractionPart, List.takeWhile_cons_of_pos isSecond]

/-- The token of a decimal number holds its meaning. -/
theorem decimal_answers
    {text : List Char}
    (all : ∀ c ∈ (NumberText.ofText text).whole, c.isDigit = true)
    (answer : Lexeme) :
    decimal text = .ok answer ↔
      (numberMeaning (NumberText.ofText text)).Held answer.token ∧
        answer.more = (NumberText.ofText text).spelled.length - 1 := by
  obtain ⟨number, isNumber⟩ : ∃ number, number = NumberText.ofText text :=
    ⟨_, rfl⟩
  rw [decimal, ← isNumber]
  rw [← isNumber] at all
  simp only [numberMeaning, NumberText.isInteger, Bool.and_eq_true,
    Option.isNone_iff_eq_none]
  split
  · rw [integer_answers, ofDigits_eq_valueOf all]
  · split
    · rename_i finite
      simpa using answers_of_held (.float finite) _ answer
    · rename_i infinite
      obtain ⟨token, more⟩ := answer
      constructor
      · intro succeeds
        cases succeeds
      · rintro ⟨held, -⟩
        cases held with
        | float finite => exact absurd finite infinite

theorem agrees_decimal
    {text : List Char}
    (starts : startsNumber text = true) :
    Agrees .decimal text (decimal text) := by
  obtain ⟨front, frontStarts, spelled⟩ :=
    exists_numberSpelled (digit_of_startsNumber starts)
  refine .found frontStarts (.decimal spelled) ?_ ?_
  · intro other meaning otherStarts spells
    cases spells with
    | decimal otherSpelled =>
        obtain ⟨rest, shape⟩ := id otherStarts
        rcases otherSpelled.read rest with same | shorter
        · rw [shape] at same
          subst same
          have sameLength : other.length = front.length := by
            rw [← otherSpelled.length_eq, spelled.length_eq]
          exact .inr ⟨eq_of_starts otherStarts frontStarts sameLength, rfl⟩
        · left
          rwa [shape, spelled.length_eq] at shorter
  · intro answer
    rw [decimal_answers fun c member => List.mem_takeWhile_imp member]
    have isLength := spelled.length_eq
    have nonempty := List.length_pos_iff.mpr spelled.ne_nil
    refine and_congr_right fun _ => ?_
    omega

end Lexical

end Formulary
