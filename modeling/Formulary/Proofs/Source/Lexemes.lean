import Formulary.Proofs.Source.Lexical
import Formulary.Proofs.Source.Literals
import Mathlib.Data.List.TakeWhile

namespace Formulary

/-!
# Readers of lexemes

Each reader finds the longest lexeme of its kind at the front of a text and the
token that holds its meaning, and fails when there is no lexeme of that kind or
no token for it.
-/

namespace Lexical

/-- A meaning is held by one token. -/
theorem Meaning.Held.unique
    {meaning : Meaning}
    {token other : Token}
    (held : meaning.Held token)
    (heldToo : meaning.Held other) :
    token = other := by
  cases held with
  | integer isValue =>
      cases heldToo with
      | integer isValueToo =>
          rw [Int64.toInt_inj.mp (isValue.trans isValueToo.symm)]
  | comment | string | float | word | symbol =>
      cases heldToo
      rfl

/--
The answer of a reader about the lexemes of a kind at the front of a text.
-/
inductive Agrees
    (kind : Kind)
    (text : List Char)
    (result : Except LexIssue Lexeme) :
    Prop where
  | found
      {lexeme : List Char}
      {meaning : Meaning}
      (starts : lexeme <+: text)
      (spells : Spells kind lexeme meaning)
      (others :
        ∀ {other : List Char} {otherMeaning : Meaning},
          other <+: text → Spells kind other otherMeaning →
            other.length < lexeme.length ∨
              other = lexeme ∧ otherMeaning = meaning)
      (answers :
        ∀ answer, result = .ok answer ↔
          meaning.Held answer.token ∧ answer.more + 1 = lexeme.length)
  | missing
      (none :
        ∀ {lexeme : List Char} {meaning : Meaning},
          lexeme <+: text → ¬ Spells kind lexeme meaning)
      (fails : ∀ answer, result ≠ .ok answer)

/-- A reader succeeds with the longest lexeme of its kind. -/
theorem Agrees.eq_ok_iff
    {kind : Kind}
    {text : List Char}
    {result : Except LexIssue Lexeme}
    (agrees : Agrees kind text result)
    {answer : Lexeme} :
    result = .ok answer ↔
      ∃ lexeme meaning,
        Longest kind text lexeme meaning ∧ meaning.Held answer.token ∧
        answer.more + 1 = lexeme.length := by
  cases agrees with
  | @found lexeme meaning starts spells others answers =>
      rw [answers]
      constructor
      · rintro ⟨held, isLength⟩
        refine ⟨lexeme, meaning, ⟨starts, spells, ?_⟩, held, isLength⟩
        intro other otherMeaning otherStarts otherSpells
        rcases others otherStarts otherSpells with shorter | ⟨rfl, -⟩
        · exact Nat.le_of_lt shorter
        · exact Nat.le_refl _
      · rintro ⟨other, otherMeaning, longest, held, isLength⟩
        rcases others longest.starts longest.spells with shorter | ⟨rfl, rfl⟩
        · exact absurd (longest.longest starts spells)
            (Nat.not_le_of_lt shorter)
        · exact ⟨held, isLength⟩
  | missing none fails =>
      constructor
      · intro succeeds
        exact absurd succeeds (fails answer)
      · rintro ⟨lexeme, meaning, longest, -⟩
        exact absurd longest.spells (none longest.starts)

/-- What a reader that succeeds answers. -/
theorem answers_of_held
    {meaning : Meaning}
    {token : Token}
    (held : meaning.Held token)
    (more : Nat)
    (answer : Lexeme) :
    Except.ok (ε := LexIssue) ⟨token, more⟩ = .ok answer ↔
      meaning.Held answer.token ∧ answer.more + 1 = more + 1 := by
  constructor
  · rintro ⟨⟩
    exact ⟨held, rfl⟩
  · obtain ⟨otherToken, otherMore⟩ := answer
    rintro ⟨heldToo, sameMore⟩
    cases held.unique heldToo
    cases sameMore
    rfl

/-- Two texts of one length at the front of a text are the same. -/
theorem eq_of_starts
    {front other text : List Char}
    (starts : front <+: text)
    (startsToo : other <+: text)
    (sameLength : front.length = other.length) :
    front = other :=
  (List.prefix_of_prefix_length_le starts startsToo
    (Nat.le_of_eq sameLength)).eq_of_length sameLength

/-- The longest run of a class at the front of a text. -/
theorem run_others
    {belongs : Char → Bool}
    {run text : List Char}
    (starts : run <+: text)
    (all : ∀ c ∈ run, belongs c = true) :
    run.length < (text.takeWhile belongs).length ∨
      run = text.takeWhile belongs := by
  obtain ⟨rest, rfl⟩ := starts
  rw [List.takeWhile_append_of_pos all]
  cases more : rest.takeWhile belongs with
  | nil => exact .inr (List.append_nil run).symm
  | cons c others =>
      left
      simp

theorem agrees_lineComment (body : List Char) :
    Agrees .lineComment ('/' :: '/' :: body)
      (.ok (Lexeme.lineComment body)) := by
  have noBreak : '\n' ∉ body.takeWhile (· ≠ '\n') := by
    intro member
    simpa using List.mem_takeWhile_imp member
  refine .found ?_ (.lineComment noBreak) ?_ (answers_of_held .comment _)
  · simpa only [List.cons_prefix_cons, true_and] using List.takeWhile_prefix _
  · intro other meaning starts spells
    cases spells with
    | @lineComment otherBody otherNoBreak =>
        simp only [List.cons_prefix_cons, true_and] at starts
        have all : ∀ c ∈ otherBody, (fun c => decide (c ≠ '\n')) c = true := by
          intro c member
          simp only [decide_eq_true_eq]
          rintro rfl
          exact otherNoBreak member
        rcases run_others starts all with shorter | rfl
        · left
          simpa using shorter
        · exact .inr ⟨rfl, rfl⟩

/-- The text of a comment reaches up to the first mark that closes it. -/
theorem commentBody?_eq_some_iff
    {text body : List Char} :
    Lexeme.commentBody? text = some body ↔
      body ++ ['*', '/'] <+: text ∧ ¬ ['*', '/'] <:+: body := by
  fun_induction Lexeme.commentBody? text generalizing body with
  | case1 => simp
  | case2 rest =>
      constructor
      · rintro ⟨⟩
        simp
      · rintro ⟨starts, unclosed⟩
        match body with
        | [] => rfl
        | [c] => simp at starts
        | first :: second :: others =>
            simp only [List.cons_append, List.cons_prefix_cons] at starts
            obtain ⟨rfl, rfl, -⟩ := starts
            exact absurd (List.prefix_append ['*', '/'] others).isInfix unclosed
  | case3 c rest notClosed inductionHypothesis =>
      cases body with
      | nil =>
          constructor
          · intro mapped
            obtain ⟨inside, -, absurdity⟩ := Option.map_eq_some_iff.mp mapped
            cases absurdity
          · rintro ⟨starts, -⟩
            obtain ⟨isStar, tail, isSlash⟩ := List.cons_prefix_cons.mp starts
            exact (notClosed tail isStar.symm isSlash.symm).elim
      | cons first others =>
          constructor
          · intro mapped
            obtain ⟨inside, found, same⟩ := Option.map_eq_some_iff.mp mapped
            cases same
            obtain ⟨starts, unclosed⟩ := inductionHypothesis.mp found
            refine ⟨List.cons_prefix_cons.mpr ⟨rfl, starts⟩, ?_⟩
            rw [List.infix_cons_iff]
            rintro (front | later)
            · obtain ⟨isStar, tail, rfl⟩ := List.cons_prefix_cons.mp front
              obtain ⟨more, rfl⟩ := starts
              exact notClosed _ isStar.symm rfl
            · exact unclosed later
          · rintro ⟨starts, unclosed⟩
            obtain ⟨rfl, othersStart⟩ := List.cons_prefix_cons.mp starts
            have stillUnclosed : ¬ ['*', '/'] <:+: others := fun inside =>
              unclosed (List.infix_cons inside)
            rw [inductionHypothesis.mpr ⟨othersStart, stillUnclosed⟩]
            rfl

theorem agrees_blockComment (body : List Char) :
    Agrees .blockComment ('/' :: '*' :: body) (Lexeme.blockComment body) := by
  unfold Lexeme.blockComment
  cases found : Lexeme.commentBody? body with
  | some inside =>
      obtain ⟨starts, unclosed⟩ := commentBody?_eq_some_iff.mp found
      refine .found ?_ (.blockComment unclosed) ?_ ?_
      · simpa only [List.cons_append, List.cons_prefix_cons, true_and]
          using starts
      · intro other meaning otherStarts spells
        cases spells with
        | @blockComment otherInside otherUnclosed =>
            simp only [List.cons_append, List.cons_prefix_cons,
              true_and] at otherStarts
            have same :=
              commentBody?_eq_some_iff.mpr ⟨otherStarts, otherUnclosed⟩
            rw [found] at same
            cases same
            exact .inr ⟨rfl, rfl⟩
      · have held : Meaning.Held (.comment inside) _ := .comment
        simpa using answers_of_held held _
  | none =>
      refine .missing ?_ (by simp)
      intro lexeme meaning starts spells
      cases spells with
      | @blockComment inside unclosed =>
          simp only [List.cons_append, List.cons_prefix_cons,
            true_and] at starts
          rw [commentBody?_eq_some_iff.mpr ⟨starts, unclosed⟩] at found
          cases found

theorem unescape?_eq_some_iff
    {mark c : Char} :
    Text.unescape? mark = some c ↔ (mark, c) ∈ escapes := by
  unfold Text.unescape?
  split <;> simp_all [escapes, eq_comm]

/-- What stands between quotes is read up to the closing quote. -/
theorem Quotes.stringBody
    {spelled text : List Char}
    (quotes : Quotes spelled text)
    (offset : Nat)
    (rest : List Char) :
    Lexeme.stringBody offset (spelled ++ '"' :: rest) =
      .ok (text, offset + spelled.length) := by
  induction quotes generalizing offset with
  | nil => simp [Lexeme.stringBody]
  | @plain c spelled text isPlain _ inductionHypothesis =>
      simp only [List.mem_cons, List.not_mem_nil, or_false, not_or] at isPlain
      obtain ⟨notQuote, notBackslash, notBreak⟩ := isPlain
      rw [List.cons_append, Lexeme.stringBody]
      · rw [inductionHypothesis, Lexeme.consChar, List.length_cons]
        congr 2
        omega
      all_goals simp_all
  | @escape mark c spelled text isEscape _ inductionHypothesis =>
      rw [List.cons_append, List.cons_append, Lexeme.stringBody,
        unescape?_eq_some_iff.mpr isEscape]
      simp only [inductionHypothesis, Lexeme.consChar, List.length_cons]
      congr 2
      omega

theorem of_consChar
    {c : Char}
    {result : Except LexIssue (List Char × Nat)}
    {text : List Char}
    {more : Nat}
    (succeeds : Lexeme.consChar c result = .ok (text, more)) :
    ∃ others, result = .ok (others, more) ∧ text = c :: others := by
  cases result with
  | ok answer =>
      cases succeeds
      exact ⟨_, rfl, rfl⟩
  | error issue => cases succeeds

/-- What is read up to the closing quote stands between quotes. -/
theorem quotes_of_stringBody
    {offset more : Nat}
    {body text : List Char}
    (reads : Lexeme.stringBody offset body = .ok (text, more)) :
    ∃ spelled, spelled ++ ['"'] <+: body ∧ Quotes spelled text ∧
      more = offset + spelled.length := by
  fun_induction Lexeme.stringBody offset body generalizing text more with
  | case1 offset => cases reads
  | case2 offset rest =>
      cases reads
      exact ⟨[], by simp, .nil, rfl⟩
  | case3 offset rest => cases reads
  | case4 offset => cases reads
  | case5 offset mark rest c isEscape inductionHypothesis =>
      obtain ⟨text, readsRest, rfl⟩ := of_consChar reads
      obtain ⟨spelled, starts, quotes, rfl⟩ := inductionHypothesis readsRest
      refine ⟨'\\' :: mark :: spelled, ?_,
        .escape (unescape?_eq_some_iff.mp isEscape) quotes, ?_⟩
      · simpa only [List.cons_append, List.cons_prefix_cons, true_and]
          using starts
      · simp only [List.length_cons]
        omega
  | case6 => cases reads
  | case7 offset c rest notQuote notBreak notLast notEscape
        inductionHypothesis =>
      obtain ⟨text, readsRest, rfl⟩ := of_consChar reads
      obtain ⟨spelled, starts, quotes, rfl⟩ := inductionHypothesis readsRest
      have isPlain : c ∉ ['"', '\\', '\n'] := by
        simp only [List.mem_cons, List.not_mem_nil, or_false, not_or]
        refine ⟨notQuote, ?_, notBreak⟩
        intro isBackslash
        cases rest with
        | nil => exact notLast isBackslash rfl
        | cons mark others => exact notEscape mark others isBackslash rfl
      refine ⟨c :: spelled, ?_, .plain isPlain quotes, ?_⟩
      · simpa only [List.cons_append, List.cons_prefix_cons, true_and]
          using starts
      · simp only [List.length_cons]
        omega

theorem agrees_string (body : List Char) :
    Agrees .string ('"' :: body) (Lexeme.string body) := by
  unfold Lexeme.string
  have reads : ∀ {spelled text : List Char},
    spelled ++ ['"'] <+: body → Quotes spelled text →
      Lexeme.stringBody 1 body = .ok (text, 1 + spelled.length) := by
    rintro spelled text ⟨rest, rfl⟩ quotes
    rw [List.append_assoc, List.singleton_append]
    exact quotes.stringBody 1 rest
  cases found : Lexeme.stringBody 1 body with
  | ok answer =>
      obtain ⟨text, more⟩ := answer
      obtain ⟨spelled, starts, quotes, rfl⟩ := quotes_of_stringBody found
      refine .found ?_ (.string quotes) ?_ ?_
      · simpa only [List.cons_append, List.cons_prefix_cons, true_and]
          using starts
      · intro other meaning otherStarts spells
        cases spells with
        | @string otherSpelled otherText otherQuotes =>
            simp only [List.cons_append, List.cons_prefix_cons,
              true_and] at otherStarts
            have same := found.symm.trans (reads otherStarts otherQuotes)
            simp only [Except.ok.injEq, Prod.mk.injEq,
              Nat.add_left_cancel_iff] at same
            obtain ⟨rfl, sameLength⟩ := same
            have sameSpelled : otherSpelled ++ ['"'] = spelled ++ ['"'] :=
              eq_of_starts otherStarts starts (by simp [sameLength])
            exact .inr ⟨congrArg _ sameSpelled, rfl⟩
      · have held : Meaning.Held (.string text) _ := .string
        have answers := answers_of_held held (1 + spelled.length)
        simpa [Nat.add_comm 1 spelled.length] using answers
  | error issue =>
      refine .missing ?_ (by simp)
      intro lexeme meaning starts spells
      cases spells with
      | string quotes =>
          simp only [List.cons_append, List.cons_prefix_cons,
            true_and] at starts
          rw [reads starts quotes] at found
          cases found

/-! Integers, in decimal and in hexadecimal digits. -/

/-- Capital letters beyond the basic block are left as they are. -/
theorem toLower_eq_self
    {c : Char}
    (beyond : 128 ≤ c.toNat) :
    c.toLower = c := by
  refine dif_neg ?_
  rintro ⟨-, high⟩
  have bound : c.toNat ≤ 90 := UInt32.le_iff_toNat_le.mp high
  omega

theorem not_mem_hexDigits
    {c : Char}
    (beyond : 128 ≤ c.toNat) :
    c.toLower ∉ hexDigits := by
  rw [toLower_eq_self beyond]
  intro member
  have checked : (hexDigits.all fun digit => digit.toNat < 128) = true := by
    decide
  have bound : c.toNat < 128 := by
    simpa using List.all_eq_true.mp checked c member
  omega

/-- The value of a hexadecimal digit is its place among the digits. -/
theorem hexDigitValue?_eq (c : Char) :
    Lexeme.hexDigitValue? c = if c.toLower ∈
      hexDigits then some (digitValue c) else none := by
  rcases Nat.lt_or_ge c.toNat 128 with basic | beyond
  · -- The basic block is checked character by character.
    have checked : ∀ n < 128,
        Lexeme.hexDigitValue? (Char.ofNat n) =
          if (Char.ofNat n).toLower ∈ hexDigits then
            some (digitValue (Char.ofNat n))
          else none := by
      decide +kernel
    simpa using checked c.toNat basic
  · have above : ∀ last : Char, last.toNat < 128 → ¬ c ≤ last := by
      intro last low isBelow
      have bound : c.toNat ≤ last.toNat := UInt32.le_iff_toNat_le.mp isBelow
      omega
    rw [if_neg (not_mem_hexDigits beyond)]
    simp only [Lexeme.hexDigitValue?, above '9' (by decide),
      above 'f' (by decide), above 'F' (by decide), and_false, if_false]

theorem isHexDigit_iff
    {c : Char} :
    Lexeme.isHexDigit c = true ↔ c.toLower ∈ hexDigits := by
  rw [Lexeme.isHexDigit, hexDigitValue?_eq]
  split <;> simp_all

/-- Decimal digits have the same values. -/
theorem digitValue_of_isDigit
    {c : Char}
    (isDigit : c.isDigit = true) :
    Decimal.digitValue c = digitValue c := by
  obtain ⟨low, high⟩ := Lexeme.isDigit_iff.mp isDigit
  have checked : ∀ n < 58, 48 ≤ n →
      Decimal.digitValue (Char.ofNat n) = digitValue (Char.ofNat n) := by
    decide +kernel
  simpa using checked c.toNat (by omega) low

/-- The number that digits write, digit by digit from the left. -/
theorem foldl_eq_valueOf
    {base : Nat}
    {value : Char → Nat}
    {digits : List Char}
    (same : ∀ c ∈ digits, value c = digitValue c) :
    digits.foldl (fun total digit => base * total + value digit) 0 =
      valueOf base digits := by
  induction digits using List.reverseRecOn with
  | nil => rfl
  | append_singleton digits last inductionHypothesis =>
      have sameDigits : ∀ c ∈ digits, value c = digitValue c := fun c member =>
        same c (List.mem_append_left _ member)
      rw [List.foldl_append, inductionHypothesis sameDigits]
      simp only [List.foldl_cons, List.foldl_nil, valueOf, List.reverse_append,
        List.reverse_singleton, List.singleton_append, List.map_cons,
        Nat.ofDigits_cons,
        same last (by simp)]
      omega

theorem ofDigits_eq_valueOf
    {digits : List Char}
    (all : ∀ c ∈ digits, c.isDigit = true) :
    Decimal.ofDigits digits = valueOf 10 digits :=
  foldl_eq_valueOf fun c member => digitValue_of_isDigit (all c member)

theorem hexValue_eq_valueOf
    {digits : List Char}
    (all : ∀ c ∈ digits, c.toLower ∈ hexDigits) :
    Lexeme.hexValue digits = valueOf 16 digits := by
  refine foldl_eq_valueOf fun c member => ?_
  rw [hexDigitValue?_eq, if_pos (all c member), Option.getD_some]

/-- The token of an integer holds its value. -/
theorem integer_answers
    (n : Nat)
    (fault : LexFault)
    (more : Nat)
    (answer : Lexeme) :
    Lexeme.integer n fault more = .ok answer ↔
      Meaning.Held (.integer n) answer.token ∧ answer.more = more := by
  unfold Lexeme.integer
  cases fits : checkedInt n with
  | some word =>
      have held : Meaning.Held (.integer n) _ :=
        .integer (checkedInt_eq_some_iff.mp fits)
      simpa using answers_of_held held more answer
  | none =>
      obtain ⟨token, answerMore⟩ := answer
      constructor
      · intro succeeds
        cases succeeds
      · rintro ⟨held, -⟩
        cases held with
        | integer isValue =>
            rw [checkedInt_eq_some_iff.mpr isValue] at fits
            cases fits

theorem agrees_hexInteger
    {mark : Char}
    (isMark : mark ∈ ['x', 'X'])
    (body : List Char) :
    Agrees .hexInteger ('0' :: mark :: body) (Lexeme.hexInteger body) := by
  have areDigits :
      ∀ c ∈ body.takeWhile Lexeme.isHexDigit, c.toLower ∈ hexDigits :=
    fun c member => isHexDigit_iff.mp (List.mem_takeWhile_imp member)
  have others : ∀ {digits : List Char},
    digits <+: body → (∀ c ∈ digits, c.toLower ∈ hexDigits) →
      digits.length < (body.takeWhile Lexeme.isHexDigit).length ∨
        digits = body.takeWhile Lexeme.isHexDigit := fun starts all =>
    run_others starts fun c member => isHexDigit_iff.mpr (all c member)
  unfold Lexeme.hexInteger
  dsimp only
  split
  · rename_i empty
    rw [List.isEmpty_iff] at empty
    refine .missing ?_ (by simp [LexFault.whole])
    intro lexeme meaning starts spells
    cases spells with
    | hexInteger _ given all =>
        simp only [List.cons_prefix_cons, true_and] at starts
        rcases others starts.2 all with shorter | same
        · rw [empty] at shorter
          cases shorter
        · exact given (same.trans empty)
  · rename_i nonempty
    rw [List.isEmpty_iff] at nonempty
    refine .found ?_ (.hexInteger isMark nonempty areDigits) ?_ ?_
    · simpa only [List.cons_prefix_cons, true_and] using List.takeWhile_prefix _
    · intro other meaning starts spells
      cases spells with
      | hexInteger _ given all =>
          simp only [List.cons_prefix_cons, true_and] at starts
          obtain ⟨rfl, starts⟩ := starts
          rcases others starts all with shorter | rfl
          · left
            simpa using shorter
          · exact .inr ⟨rfl, rfl⟩
    · intro answer
      rw [integer_answers, hexValue_eq_valueOf areDigits]
      simp

theorem word_eq (spelling : List Char) :
    Lexeme.word (String.ofList spelling) =
      (keywords.lookup spelling).getD (.name (String.ofList spelling)) := by
  have isWord : ∀ {word : String},
      String.ofList spelling = word ↔ spelling = word.toList := by
    intro word
    constructor
    · rintro rfl
      rw [String.toList_ofList]
    · rintro rfl
      rw [String.ofList_toList]
  have isTrue : "true".toList = ['t', 'r', 'u', 'e'] := by decide
  have isFalse : "false".toList = ['f', 'a', 'l', 's', 'e'] := by decide
  have isPrint : "print".toList = ['p', 'r', 'i', 'n', 't'] := by decide
  simp only [Lexeme.word, isWord, isTrue, isFalse, isPrint, keywords,
    List.lookup_cons, List.lookup_nil, beq_eq_decide]
  by_cases matchesTrue : spelling = ['t', 'r', 'u', 'e']
  · simp [matchesTrue]
  by_cases matchesFalse : spelling = ['f', 'a', 'l', 's', 'e']
  · simp [matchesFalse]
  by_cases matchesPrint : spelling = ['p', 'r', 'i', 'n', 't']
  · simp [matchesPrint]
  · simp [matchesTrue, matchesFalse, matchesPrint]

theorem agrees_word
    {first : Char}
    (starts : Lexeme.isNameStart first = true)
    (rest : List Char) :
    Agrees .word (first :: rest) (.ok (Lexeme.name first rest)) := by
  have areNameChars :
      ∀ c ∈ rest.takeWhile Lexeme.isNameChar, Lexeme.isNameChar c = true :=
    fun c member => List.mem_takeWhile_imp member
  refine .found ?_ (.word starts areNameChars) ?_ ?_
  · simpa only [List.cons_prefix_cons, true_and] using List.takeWhile_prefix _
  · intro other meaning otherStarts spells
    cases spells with
    | @word otherFirst others isStart all =>
        simp only [List.cons_prefix_cons] at otherStarts
        obtain ⟨rfl, othersStart⟩ := otherStarts
        have areNameCharsToo : ∀ c ∈ others, Lexeme.isNameChar c = true := all
        rcases run_others othersStart areNameCharsToo with shorter | rfl
        · left
          simpa using shorter
        · exact .inr ⟨rfl, rfl⟩
  · rw [Lexeme.name, word_eq]
    exact answers_of_held .word _

/-- Characters that are symbols of their own. -/
def narrow : List Char :=
  ['+', '-', '*', '/', '^', '<', '>', '=', ';', ',', '(', ')', '[', ']', '\x7b',
    '\x7d']

/-- Characters that are symbols together with an equals sign. -/
def wide : List Char :=
  ['=', '!', '<', '>']

theorem symbols_width :
    ∀ entry ∈ symbols, (∃ c ∈ narrow, entry.1 = [c]) ∨ ∃ c ∈ wide,
      entry.1 = [c, '='] := by
  have checked :
      (symbols.all fun entry =>
        narrow.any (fun c => entry.1 = [c]) || wide.any fun c =>
          entry.1 = [c, '=']) = true := by
    decide
  simpa only [List.all_eq_true, Bool.or_eq_true, List.any_eq_true,
    decide_eq_true_eq] using checked

/-- A symbol stands for one token. -/
theorem symbols_lookup :
    ∀ entry ∈ symbols, symbols.lookup entry.1 = some entry.2 := by
  decide

theorem agrees_listed
    {spelling text : List Char}
    {token : Token}
    (listed : (spelling, token) ∈ symbols)
    (starts : spelling <+: text)
    (widest :
      ∀ entry ∈ symbols, entry.1 <+: text → entry.1.length ≤ spelling.length)
    {more : Nat}
    (isLength : spelling.length = more + 1) :
    Agrees .symbol text (.ok ⟨token, more⟩) := by
  refine .found starts (.symbol listed) ?_ ?_
  · intro other meaning otherStarts spells
    cases spells with
    | symbol listedToo =>
        rcases Nat.lt_or_eq_of_le (widest _ listedToo otherStarts) with
            shorter | sameLength
        · exact .inl shorter
        · cases eq_of_starts otherStarts starts sameLength
          have isToken : symbols.lookup spelling = some token :=
            symbols_lookup _ listed
          rw [symbols_lookup _ listedToo] at isToken
          cases isToken
          exact .inr ⟨rfl, rfl⟩
  · rw [isLength]
    exact answers_of_held .symbol more

section Symbols

variable
  {first : Char}
  {token : Token}

theorem agrees_wide
    (listed : ([first, '='], token) ∈ symbols)
    (rest : List Char) :
    Agrees .symbol (first :: '=' :: rest) (.ok ⟨token, 1⟩) := by
  refine agrees_listed listed (List.prefix_append [first, '='] rest) ?_ rfl
  intro entry isListed _
  rcases symbols_width entry isListed with ⟨c, -, isNarrow⟩ | ⟨c, -, isWide⟩
  · simp [isNarrow]
  · simp [isWide]

theorem agrees_narrow
    (listed : ([first], token) ∈ symbols)
    {rest : List Char}
    (notWide : first ∈ wide → ∀ tail, rest = '=' :: tail → False) :
    Agrees .symbol (first :: rest) (.ok ⟨token, 0⟩) := by
  refine agrees_listed listed (List.prefix_append [first] rest) ?_ rfl
  rintro ⟨spelling, other⟩ isListed starts
  rcases symbols_width _ isListed with ⟨c, -, rfl⟩ | ⟨c, isWide, rfl⟩
  · exact Nat.le_refl 1
  · obtain ⟨rfl, tail, rfl⟩ := List.cons_prefix_cons.mp starts
    exact (notWide isWide _ rfl).elim

end Symbols

theorem agrees_symbol (first : Char) (rest : List Char) :
    Agrees .symbol (first :: rest) (Lexeme.symbol first rest) := by
  unfold Lexeme.symbol
  split
  -- The wide symbols come first, and three
  -- of them have a narrow one behind them.
  case h_1 | h_2 | h_3 | h_4 => exact agrees_wide (by decide) _
  case h_10 | h_11 | h_12 =>
    rename_i notWide
    exact agrees_narrow (by decide) fun _ => notWide
  case h_21 =>
    refine .missing ?_ (by simp [LexFault.whole])
    intro lexeme meaning starts spells
    cases spells with
    | symbol listed =>
        rcases symbols_width _ listed with ⟨c, isNarrow, rfl⟩ | ⟨c, isWide, rfl⟩
        · obtain ⟨rfl, -⟩ := List.cons_prefix_cons.mp starts
          simp_all [narrow]
        · obtain ⟨rfl, tail, rfl⟩ := List.cons_prefix_cons.mp starts
          simp_all [wide]
  all_goals
    exact agrees_narrow (by decide) (fun isWide => absurd isWide (by decide))

end Lexical

end Formulary
