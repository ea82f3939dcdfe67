import Formulary.Proofs.Source.Words

namespace Formulary

/-!
# How tokens are spelled

A text spells tokens when scanning it gives them, whatever comes before it and
whatever of a given kind follows.  Texts that spell tokens are put together from
words, and a word is over where a delimiter follows.
-/

namespace Token

/-- Characters that end a word. -/
def delimiters : List Char :=
  [' ', '\n', '(', ')', ',', '[', ']', ';', '\x7d']

/-- A text that ends the word before it. -/
def Delimited (rest : List Char) : Prop :=
  ∀ c ∈ rest.head?, c ∈ delimiters

/-- Any text. -/
def Anything (_ : List Char) : Prop :=
  True

/-- A text that starts with a given character. -/
def StartsWith (c : Char) (rest : List Char) : Prop :=
  rest.head? = some c

theorem delimited_cons
    {c : Char}
    (member : c ∈ delimiters)
    (rest : List Char) :
    Delimited (c :: rest) := by
  intro first isFirst
  cases isFirst
  exact member

/-- What holds of every delimiter holds of what follows a word. -/
theorem Delimited.holds
    {rest : List Char}
    (delimited : Delimited rest)
    {belongs : Char → Bool}
    (checked : delimiters.all belongs = true) :
    ∀ c ∈ rest.head?, belongs c = true :=
  fun c isFirst => List.all_eq_true.mp checked c (delimited c isFirst)

/-- What holds of no delimiter does not hold of what follows a word. -/
theorem Delimited.excludes
    {rest : List Char}
    (delimited : Delimited rest)
    {belongs : Char → Bool}
    (checked : (delimiters.all fun c => !belongs c) = true) :
    ∀ c ∈ rest.head?, belongs c = false := by
  intro c isFirst
  simpa using delimited.holds checked c isFirst

/--
Scanning a text gives tokens, none of them a comment, and goes on with what
follows.
-/
structure Spells
    (follows : List Char → Prop)
    (text : List Char)
    (tokens : List Token) :
    Prop where
  visible : ∀ token ∈ tokens, token.isComment = false
  scanned :
    ∀ (position : Position) (rest : List Char), follows rest →
      ∃ (next : Position) (located : List (Located Token)),
        located.map Located.item = tokens ∧
          scanFrom position (text ++ rest) =
            (scanFrom next rest).map (located ++ ·)

namespace Spells

variable {follows : List Char → Prop}

/-- Texts that follow each other spell their tokens one after the other. -/
theorem append
    {later : List Char → Prop}
    {text more : List Char}
    {tokens others : List Token}
    (first : Spells follows text tokens)
    (second : Spells later more others)
    (fits : ∀ rest, later rest → follows (more ++ rest)) :
    Spells later (text ++ more) (tokens ++ others) := by
  refine ⟨List.forall_mem_append.mpr ⟨first.visible, second.visible⟩, ?_⟩
  intro position rest isLater
  obtain ⟨between, located, rfl, scanned⟩ :=
    first.scanned position (more ++ rest) (fits rest isLater)
  obtain ⟨next, moreLocated, rfl, moreScanned⟩ :=
    second.scanned between rest isLater
  refine ⟨next, located ++ moreLocated, List.map_append, ?_⟩
  rw [List.append_assoc, scanned, moreScanned]
  cases scanFrom next rest with
  | error error => rfl
  | ok tokens => simp [Except.map]

/-- What is spelled whatever follows is spelled in front of every text. -/
theorem weaken
    {later : List Char → Prop}
    {text : List Char}
    {tokens : List Token}
    (spells : Spells follows text tokens)
    (fits : ∀ rest, later rest → follows rest) :
    Spells later text tokens :=
  ⟨spells.visible, fun position rest isLater =>
    spells.scanned position rest (fits rest isLater)⟩

theorem nil : Spells follows [] [] := by
  refine ⟨by simp, ?_⟩
  intro position rest _
  refine ⟨position, [], rfl, ?_⟩
  cases scanned : scanFrom position rest <;> simp [Except.map, scanned]

/-- Blanks spell nothing. -/
theorem blank
    {c : Char}
    (isBlank : Text.isBlank c = true) :
    Spells follows [c] [] := by
  refine ⟨by simp, ?_⟩
  intro position rest _
  refine ⟨position.step c, [], rfl, ?_⟩
  rw [List.singleton_append, scanFrom, if_pos isBlank]
  cases scanFrom (position.step c) rest <;> simp [Except.map]

/-- A lexeme spells its token. -/
theorem lexeme
    {first : Char}
    {body : List Char}
    {token : Token}
    (notBlank : Text.isBlank first = false)
    (visible : token.isComment = false)
    (reads :
      ∀ rest, follows rest →
        Lexeme.read first (body ++ rest) = .ok ⟨token, body.length⟩) :
    Spells follows (first :: body) [token] := by
  refine ⟨by simpa using visible, ?_⟩
  intro position rest isFollowing
  refine ⟨position.advance (first :: body), [⟨position, token⟩], rfl, ?_⟩
  rw [List.cons_append, scanFrom, if_neg (by simp [notBlank]),
    reads rest isFollowing]
  simp only [List.take_left, List.drop_left]
  cases scanFrom (position.advance (first :: body)) rest <;> simp [Except.map]

end Spells

end Token

namespace Lexeme

open Token

/--
The longest run of a class at the front of a text that goes on with something
else.
-/
theorem takeWhile_append_stop
    {belongs : Char → Bool}
    {run rest : List Char}
    (all : ∀ c ∈ run, belongs c = true)
    (stop : ∀ c ∈ rest.head?, belongs c = false) :
    (run ++ rest).takeWhile belongs = run ∧
      (run ++ rest).dropWhile belongs = rest := by
  rw [List.takeWhile_append_of_pos all, List.dropWhile_append_of_pos all]
  cases rest with
  | nil => simp
  | cons c others => simp [stop c rfl]

theorem isDigit_iff
    {c : Char} :
    c.isDigit = true ↔ 48 ≤ c.toNat ∧ c.toNat ≤ 57 := by
  simp only [Char.isDigit, Bool.and_eq_true, decide_eq_true_eq,
    UInt32.le_iff_toNat_le, ge_iff_le]
  rfl

/-- The visible characters of the basic block are not blank. -/
theorem isBlank_eq_false
    {c : Char}
    (low : 33 ≤ c.toNat)
    (high : c.toNat ≤ 126) :
    Text.isBlank c = false := by
  simp only [Text.isBlank, Text.blankRanges, List.any_cons, List.any_nil,
    Bool.or_false, Bool.or_eq_false_iff, Bool.and_eq_false_iff,
    decide_eq_false_iff_not]
  omega

theorem toNat_of_isNameStart
    {c : Char}
    (starts : isNameStart c = true) :
    65 ≤ c.toNat ∧ c.toNat ≤ 122 := by
  have letters :
      isNameStart c =
        (decide (65 ≤ c.val ∧ c.val ≤ 90) ||
          decide (97 ≤ c.val) && decide (c.val ≤ 122) || decide (c = '_')) :=
    rfl
  simp only [letters, Bool.or_eq_true, Bool.and_eq_true, decide_eq_true_eq,
    UInt32.le_iff_toNat_le] at starts
  rcases starts with (⟨low, high⟩ | ⟨low, high⟩) | rfl
  · exact ⟨low, Nat.le_trans high (by decide)⟩
  · exact ⟨Nat.le_trans (by decide) low, high⟩
  · decide

/-- A character that starts a name starts nothing else. -/
theorem classOf_of_isNameStart
    {first : Char}
    (starts : isNameStart first = true)
    (rest : List Char) :
    classOf first rest = .name := by
  obtain ⟨low, high⟩ := toNat_of_isNameStart starts
  have notDigit : first.isDigit = false := by
    rw [← Bool.not_eq_true, isDigit_iff]
    omega
  unfold classOf
  split
  case h_7 => simp [notDigit, starts]
  all_goals exact absurd low (by decide)

theorem isComment_word
    (spelling : String) :
    (word spelling).isComment = false := by
  unfold word
  split
  · rfl
  · split
    · rfl
    · split <;> rfl

/-- A name or a keyword spells its word. -/
theorem spells_word
    {spelling : String}
    (shape :
      ∃ first rest, spelling.toList = first :: rest ∧ isNameStart first = true ∧
        ∀ c ∈ rest, isNameChar c = true) :
    Spells Delimited spelling.toList [word spelling] := by
  obtain ⟨first, body, isSpelled, starts, continues⟩ := shape
  obtain ⟨low, high⟩ := toNat_of_isNameStart starts
  have notBlank : Text.isBlank first = false :=
    isBlank_eq_false (by omega) (by omega)
  rw [isSpelled]
  refine Spells.lexeme notBlank (isComment_word spelling)
    fun rest delimited => ?_
  have stop : ∀ c ∈ rest.head?, isNameChar c = false :=
    delimited.excludes (by decide)
  have run := (takeWhile_append_stop continues stop).1
  have whole : String.ofList (first :: body) = spelling := by
    rw [← isSpelled, String.ofList_toList]
  rw [read, classOf_of_isNameStart starts]
  simp only [name, run, whole]

/-- A name spells itself. -/
theorem spells_name
    {spelling : String}
    (isName : IsName spelling) :
    Spells Delimited spelling.toList [.name spelling] := by
  rw [← isName.notKeyword]
  exact spells_word isName.shape

namespace NumberText

/-- A number of digits as they are written out. -/
structure Plain (number : NumberText) : Prop where
  whole : number.whole ≠ [] ∧ ∀ c ∈ number.whole, c.isDigit = true
  fraction : ∀ digits ∈ number.fraction, ∀ c ∈ digits, c.isDigit = true
  exponent :
    ∀ part ∈ number.exponent,
      (part.sign = [] ∨ part.sign = ['-']) ∧ part.digits ≠ [] ∧
        ∀ c ∈ part.digits, c.isDigit = true

/-- An exponent as it is written. -/
def exponentChars : Option ExponentText → List Char
  | some ⟨sign, digits⟩ => 'e' :: (sign ++ digits)
  | none => []

/-- The exponent is read as it is written. -/
theorem exponentText?_spelled
    {exponent : Option ExponentText}
    (plain :
      ∀ part ∈ exponent,
        (part.sign = [] ∨ part.sign = ['-']) ∧ part.digits ≠ [] ∧
          ∀ c ∈ part.digits, c.isDigit = true)
    {rest : List Char}
    (delimited : Delimited rest) :
    exponentText? (exponentChars exponent ++ rest) = exponent := by
  have stop : ∀ c ∈ rest.head?, c.isDigit = false :=
    delimited.excludes (by decide)
  cases exponent with
  | none =>
      cases rest with
      | nil => rfl
      | cons c others =>
          have notMark : ¬ (c = 'e' ∨ c = 'E') := by
            simpa using delimited.excludes (by decide : (delimiters.all fun c =>
              !decide (c = 'e' ∨ c = 'E')) = true) c rfl
          simp [exponentChars, exponentText?, notMark]
  | some part =>
      obtain ⟨sign, digits⟩ := part
      obtain ⟨signed, some, all⟩ := plain _ rfl
      have run := (takeWhile_append_stop all stop).1
      rcases signed with rfl | rfl
      · obtain ⟨first, others, rfl⟩ := List.exists_cons_of_ne_nil some
        have isDigit := isDigit_iff.mp (all first List.mem_cons_self)
        have notPlus : first ≠ '+' := by
          rintro rfl; exact absurd isDigit (by decide)
        have notMinus : first ≠ '-' := by
          rintro rfl; exact absurd isDigit (by decide)
        rw [List.cons_append] at run
        simp [exponentChars, exponentText?, notPlus, notMinus, run]
      · simp [exponentChars, exponentText?, run, some]

/-- A number is read as it is written. -/
theorem ofText_spelled
    {number : NumberText}
    (plain : number.Plain)
    {rest : List Char}
    (delimited : Delimited rest) :
    ofText (number.spelled ++ rest) = number := by
  obtain ⟨whole, fraction, exponent⟩ := number
  have readExponent := exponentText?_spelled plain.exponent delimited
  -- What follows the fraction starts neither with a digit nor with a point.
  have stop : ∀ c ∈ (exponentChars exponent ++ rest).head?,
      c.isDigit = false ∧ c ≠ '.' := by
    cases exponent with
    | some part =>
        intro c isFirst
        cases isFirst
        decide
    | none =>
        intro c isFirst
        simpa using delimited.holds (by decide : (delimiters.all fun c =>
          decide (c.isDigit = false ∧ c ≠ '.')) = true) c isFirst
  have noDigit :
      ∀ c ∈ (exponentChars exponent ++ rest).head?, c.isDigit = false :=
    fun c isFirst => (stop c isFirst).1
  cases fraction with
  | none =>
      have shape :
          (NumberText.mk whole none exponent).spelled ++ rest =
            whole ++ (exponentChars exponent ++ rest) := by
        simp only [spelled, List.append_nil, List.append_assoc]
        rfl
      obtain ⟨taken, dropped⟩ := takeWhile_append_stop plain.whole.2 noDigit
      rw [shape]
      simp only [ofText, taken, dropped]
      split
      · rename_i isPoint
        exact absurd rfl (stop '.' (by rw [isPoint]; rfl)).2
      · rw [readExponent]
  | some digits =>
      have shape :
          (NumberText.mk whole (some digits) exponent).spelled ++ rest =
            whole ++ '.' :: (digits ++ (exponentChars exponent ++ rest)) := by
        simp only [spelled, List.append_assoc, List.cons_append]
        rfl
      have atPoint :
          ∀ c ∈ ('.' :: (digits ++ (exponentChars exponent ++ rest))).head?,
            c.isDigit = false := by
        intro c isFirst
        cases isFirst
        decide
      obtain ⟨taken, dropped⟩ := takeWhile_append_stop plain.whole.2 atPoint
      obtain ⟨takenFraction, droppedFraction⟩ :=
        takeWhile_append_stop (plain.fraction digits rfl) noDigit
      rw [shape]
      simp only [ofText, taken, dropped, takenFraction, droppedFraction,
        readExponent]

/-- A number starts with a digit. -/
theorem Plain.spelled_cons
    {number : NumberText}
    (plain : number.Plain) :
    ∃ first body, number.spelled = first :: body ∧ first.isDigit = true ∧
      ∀ c ∈ body.head?, c ≠ 'x' ∧ c ≠ 'X' := by
  obtain ⟨whole, fraction, exponent⟩ := number
  obtain ⟨first, others, rfl⟩ := List.exists_cons_of_ne_nil plain.whole.1
  refine ⟨first, _, rfl, plain.whole.2 first List.mem_cons_self, ?_⟩
  intro c isFirst
  cases others with
  | cons second more =>
      cases isFirst
      have isDigit := isDigit_iff.mp (plain.whole.2 c (by simp))
      constructor
      · rintro rfl
        exact absurd isDigit (by decide)
      · rintro rfl
        exact absurd isDigit (by decide)
  | nil =>
      cases fraction with
      | some digits =>
          cases isFirst
          decide
      | none =>
          cases exponent with
          | some part =>
              cases isFirst
              decide
          | none => cases isFirst

/-- A digit starts a decimal number, unless it starts a hexadecimal one. -/
theorem classOf_of_isDigit
    {first : Char}
    (starts : first.isDigit = true)
    {rest : List Char}
    (notHex : ∀ c ∈ rest.head?, c ≠ 'x' ∧ c ≠ 'X') :
    classOf first rest = .decimal := by
  have bounds := isDigit_iff.mp starts
  unfold classOf
  split
  case h_4 => exact absurd rfl (notHex 'x' rfl).1
  case h_5 => exact absurd rfl (notHex 'X' rfl).2
  case h_7 => simp [starts]
  all_goals exact absurd bounds (by decide)

/-- A number spells the literal that is read from it. -/
theorem Plain.spells
    {number : NumberText}
    (plain : number.Plain)
    {value : Value}
    (reads :
      ∀ text, ofText text = number →
        decimal text = .ok ⟨.literal value, number.spelled.length - 1⟩) :
    Spells Delimited number.spelled [.literal value] := by
  obtain ⟨first, body, shape, starts, noHex⟩ := plain.spelled_cons
  have bounds := isDigit_iff.mp starts
  rw [shape]
  refine Spells.lexeme (isBlank_eq_false (by omega) (by omega)) rfl
    fun rest delimited => ?_
  have notHex : ∀ c ∈ (body ++ rest).head?, c ≠ 'x' ∧ c ≠ 'X' := by
    cases body with
    | cons second more => exact noHex
    | nil =>
        intro c isFirst
        simpa using delimited.holds (by decide : (delimiters.all fun c =>
          decide (c ≠ 'x' ∧ c ≠ 'X')) = true) c isFirst
  have scanned : ofText (first :: (body ++ rest)) = number := by
    rw [← List.cons_append, ← shape]
    exact ofText_spelled plain delimited
  rw [read, classOf_of_isDigit starts notHex]
  simp only [reads _ scanned, shape, List.length_cons, Nat.add_sub_cancel]

end NumberText

/-- A character that is a token whatever follows. -/
theorem spells_single
    {c : Char}
    {token : Token}
    (notBlank : Text.isBlank c = false)
    (visible : token.isComment = false)
    (reads : ∀ rest, read c rest = .ok ⟨token, 0⟩) :
    Spells Anything [c] [token] :=
  Spells.lexeme notBlank visible fun rest _ => reads rest

theorem spells_minus : Spells Anything ['-'] [.operator .sub] :=
  spells_single (by decide) rfl fun _ => rfl

/-- The character of a mark. -/
def markChar : Mark → Char
  | .assign => '='
  | .semicolon => ';'
  | .comma => ','
  | .openParen => '('
  | .closeParen => ')'
  | .openBracket => '['
  | .closeBracket => ']'
  | .openBrace => '\x7b'
  | .closeBrace => '\x7d'

/-- Marks other than the equals sign are over at once. -/
theorem spells_mark
    (mark : Mark)
    (single : mark ≠ .assign) :
    Spells Anything [markChar mark] [.mark mark] := by
  cases mark with
  | assign => exact absurd rfl single
  | _ => exact spells_single (by decide) rfl fun _ => rfl

/-- An equals sign in front of a blank. -/
theorem spells_assign : Spells (StartsWith ' ') ['='] [.mark .assign] := by
  refine Spells.lexeme (by decide) rfl fun rest starts => ?_
  obtain ⟨others, rfl⟩ := List.head?_eq_some_iff.mp starts
  rfl

/-- Operators in front of a blank. -/
theorem spells_operator (op : BinaryOp) :
    Spells (StartsWith ' ') op.symbol.toList [.operator op] := by
  cases op <;> refine Spells.lexeme (by decide) rfl fun rest starts => ?_
  all_goals
    obtain ⟨others, rfl⟩ := List.head?_eq_some_iff.mp starts
    rfl

end Lexeme

end Formulary
