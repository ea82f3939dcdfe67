import Formulary.Proofs.Source.Partition
import Formulary.Proofs.Source.Program
import Formulary.Proofs.Source.Relocation

namespace Formulary

open Stateful

/-!
# Sources one below the other

No lexeme that is complete goes on behind a line break, and no statement goes on
behind its semicolon.  The tokens of two sources, one below the other, are
therefore those of the first followed by those of the second, and their
statements are those of the first followed by those of the second; what belongs
to the second is some lines further down.
-/

namespace Lexical

theorem Quotes.no_break
    {spelled text : List Char}
    (quotes : Quotes spelled text) :
    '\n' ∉ spelled := by
  induction quotes with
  | nil => exact List.not_mem_nil
  | plain isPlain _ inductionHypothesis =>
      simp only [List.mem_cons, List.not_mem_nil, or_false, not_or] at isPlain
      simp only [List.mem_cons, not_or]
      exact ⟨fun isBreak => isPlain.2.2 isBreak.symm, inductionHypothesis⟩
  | escape listed _ inductionHypothesis =>
      have marks : ∀ entry ∈ escapes, entry.1 ≠ '\n' := by decide
      simp only [List.mem_cons, not_or]
      exact ⟨by decide, fun isBreak =>
        marks _ listed isBreak.symm, inductionHypothesis⟩

/-- A line break is none of the characters of a class. -/
theorem not_mem_of_class
    {belongs : Char → Prop}
    (excluded : ¬ belongs '\n')
    {text : List Char}
    (all : ∀ c ∈ text, belongs c) :
    '\n' ∉ text :=
  fun member => excluded (all '\n' member)

theorem NumberSpelled.no_break
    {number : Lexeme.NumberText}
    {text : List Char}
    (spelled : NumberSpelled number text) :
    '\n' ∉ text := by
  have noDigit : ¬ Char.isDigit '\n' = true := by decide
  cases spelled with
  | number whole fraction exponent _ =>
      simp only [List.mem_append, not_or]
      refine ⟨not_mem_of_class noDigit whole, ?_, ?_⟩
      · cases fraction with
        | absent => exact List.not_mem_nil
        | present digits =>
            simpa using not_mem_of_class noDigit digits
      · cases exponent with
        | absent => exact List.not_mem_nil
        | present mark sign _ digits =>
            have marks : ∀ mark ∈ ['e', 'E'], '\n' ≠ mark := by simp
            have signs : ∀ sign ∈ [[], ['+'], ['-']], '\n' ∉ sign := by simp
            simp only [List.mem_cons, List.mem_append, not_or]
            exact ⟨marks _ mark, signs _ sign, not_mem_of_class noDigit digits⟩

/-- Only comments in marks go over several lines. -/
theorem Spells.no_break
    {kind : Kind}
    {lexeme : List Char}
    {meaning : Meaning}
    (spells : Spells kind lexeme meaning)
    (notBlock : kind ≠ .blockComment) :
    '\n' ∉ lexeme := by
  cases spells with
  | lineComment noBreak => simpa using noBreak
  | blockComment => exact absurd rfl notBlock
  | string quotes => simpa using quotes.no_break
  | hexInteger mark _ digits =>
      have marks : ∀ mark ∈ ['x', 'X'], '\n' ≠ mark := by simp
      simp only [List.mem_cons, not_or]
      exact ⟨by decide, marks _ mark, not_mem_of_class (by decide) digits⟩
  | decimal spelled => exact spelled.no_break
  | word first others =>
      simp only [List.mem_cons, not_or]
      refine ⟨?_, not_mem_of_class (by decide) others⟩
      rintro rfl
      exact absurd first (by decide)
  | symbol listed =>
      have given : ∀ entry ∈ symbols, '\n' ∉ entry.1 := by decide
      exact given _ listed

/-- What starts a text and its next line without a break starts the text. -/
theorem starts_append_break
    {front : List Char}
    (noBreak : '\n' ∉ front)
    (text more : List Char) :
    front <+: text ++ '\n' :: more ↔ front <+: text := by
  constructor
  · intro starts
    have line : text ++ ['\n'] <+: text ++ '\n' :: more := ⟨more, by simp⟩
    by_cases longer : text.length < front.length
    · have covered : text ++ ['\n'] <+: front :=
        List.prefix_of_prefix_length_le line starts
          (by simpa using Nat.succ_le_of_lt longer)
      exact absurd (covered.subset (by simp)) noBreak
    · exact List.prefix_of_prefix_length_le starts
        (List.prefix_append text _) (by omega)
  · intro starts
    exact starts.trans (List.prefix_append text _)

theorem kindOf_append_break
    (first : Char)
    (rest more : List Char) :
    kindOf (first :: rest ++ '\n' :: more) = kindOf (first :: rest) := by
  have number :
      startsNumber (first :: rest ++ '\n' :: more) =
        startsNumber (first :: rest) := by
    cases rest with
    | nil => simp [startsNumber]
    | cons next tail => simp [startsNumber]
  have word : startsWord (first :: rest ++ '\n' :: more) =
      startsWord (first :: rest) := by
    simp [startsWord]
  simp only [kindOf, number, word,
    starts_append_break (by decide : '\n' ∉ ['/', '/']),
    starts_append_break (by decide : '\n' ∉ ['/', '*']),
    starts_append_break (by decide : '\n' ∉ ['"']),
    starts_append_break (by decide : '\n' ∉ ['0', 'x']),
    starts_append_break (by decide : '\n' ∉ ['0', 'X'])]

/-- The lexeme at the front of a text is not changed by another line below. -/
theorem Longest.append_break
    {kind : Kind}
    {text lexeme : List Char}
    {meaning : Meaning}
    (longest : Longest kind text lexeme meaning)
    (more : List Char) :
    Longest kind (text ++ '\n' :: more) lexeme meaning := by
  have starts : lexeme <+: text ++ '\n' :: more :=
    longest.starts.trans (List.prefix_append text _)
  refine ⟨starts, longest.spells, ?_⟩
  intro other otherMeaning otherStarts otherSpells
  by_cases isBlock : kind = .blockComment
  · -- The first mark that closes a comment is the same in both texts.
    subst isBlock
    have spells := longest.spells
    cases spells with
    | @blockComment body unclosed =>
      cases otherSpells with
      | @blockComment otherBody otherUnclosed =>
          obtain ⟨rest, shape⟩ := starts
          obtain ⟨otherRest, otherShape⟩ := otherStarts
          have same := shape.trans otherShape.symm
          simp only [List.cons_append, List.cons.injEq, true_and] at same
          have found := commentBody?_eq_some_iff.mpr ⟨⟨rest, rfl⟩, unclosed⟩
          have foundToo :=
            commentBody?_eq_some_iff.mpr ⟨⟨otherRest, same.symm⟩, otherUnclosed⟩
          cases found.symm.trans foundToo
          exact Nat.le_refl _
  · have inText := (starts_append_break (otherSpells.no_break isBlock) text
      more).mp otherStarts
    exact longest.longest inText otherSpells

/-! Tokens in front of a line break. -/

theorem read_append_break
    {first : Char}
    {rest : List Char}
    {answer : Lexeme}
    (reads : Lexeme.read first rest = .ok answer)
    (more : List Char) :
    Lexeme.read first (rest ++ '\n' :: more) = .ok answer := by
  obtain ⟨lexeme, meaning, longest, held, width⟩ := read_eq_ok_iff.mp reads
  have below := longest.append_break more
  rw [← kindOf_append_break first rest more] at below
  exact read_eq_ok_iff.mpr ⟨lexeme, meaning, below, held, width⟩

/-- The tokens of a text that is cut are followed by those of the next lines. -/
theorem Cut.scanFrom_append_break
    {before text : List Char}
    {pieces : List Piece}
    (cut : Cut before text pieces)
    (more : List Char) :
    Token.scanFrom (place before) (text ++ '\n' :: more) =
      (Token.scanFrom (place (before ++ text ++ ['\n'])) more).map
        (pieces.map Piece.token ++ ·) := by
  induction cut with
  | @done before =>
      rw [List.nil_append, Token.scanFrom, if_pos (by decide), ← place_concat,
        List.append_nil]
      cases Token.scanFrom (place (before ++ ['\n'])) more <;> rfl
  | @blank c before rest pieces isBlank _ inductionHypothesis =>
      rw [List.cons_append, Token.scanFrom, if_pos isBlank, ← place_concat,
        inductionHypothesis]
      simp only [List.append_assoc, List.singleton_append]
  | @lexeme first before others rest meaning token pieces notBlank
        longest held _
      inductionHypothesis =>
      have alone :
          Lexeme.read first (others ++ rest) = .ok ⟨token, others.length⟩ :=
        read_eq_ok_iff.mpr ⟨_, meaning, longest, held, rfl⟩
      have reads := read_append_break alone more
      rw [List.append_assoc] at reads
      rw [List.append_assoc, List.cons_append, Token.scanFrom,
        if_neg (by simp [notBlank]), reads]
      simp only [List.take_left, List.drop_left, ← place_append,
        inductionHypothesis]
      rw [List.append_assoc before]
      cases Token.scanFrom
        (place (before ++ (first :: others ++ rest) ++ ['\n'])) more <;> rfl

end Lexical

namespace Position

/-- The position some lines further down. -/
def lower (lines : Nat) (position : Position) : Position :=
  ⟨position.line + lines, position.column⟩

/-- The position some lines further up. -/
def raise (lines : Nat) (position : Position) : Position :=
  ⟨position.line - lines, position.column⟩

theorem raise_comp_lower (lines : Nat) : raise lines ∘ lower lines = id := by
  funext position
  simp [raise, lower]

/-- Lines and columns are counted from a lower line as from any other. -/
theorem inStep_lower
    (lines : Nat)
    (position : Position) :
    InStep (lower lines) position := by
  refine inStep_of_step (fun _ => True) (fun _ _ => id) ?_ trivial
  intro position c _
  unfold step
  split <;> simp [lower, Nat.add_right_comm]

end Position

namespace Grammar

/-- A statement ends with its semicolon. -/
theorem OneStatement.last
    {tokens : Tokens}
    {statement : Statement}
    (derives : OneStatement tokens statement) :
    ∃ front position, tokens = front ++ [⟨position, .mark .semicolon⟩] := by
  cases derives with
  | print => exact ⟨_, _, rfl⟩
  | named => exact ⟨_, _, rfl⟩

/-- Behind a semicolon that stands alone. -/
theorem Program.skipped_iff
    {tokens : Tokens}
    {statements : List Statement}
    {position : Position} :
    Program (⟨position, .mark .semicolon⟩ :: tokens) statements ↔
      Program tokens statements := by
  refine ⟨?_, .skipped⟩
  generalize shape : (⟨position, .mark .semicolon⟩ :: tokens : Tokens) = all
  intro derives
  cases derives with
  | done => cases shape
  | ended => cases shape
  | skipped others =>
      cases shape
      exact others
  | next first others =>
      obtain ⟨token, more, rfl, starts⟩ := first.head
      cases shape
      rcases starts with isPrint | ⟨name, isName⟩
      · cases isPrint
      · cases isName

/-- Behind a statement. -/
theorem Program.next_iff
    {tokens rest : Tokens}
    {statement : Statement}
    (first : OneStatement tokens statement)
    {statements : List Statement} :
    Program (tokens ++ rest) statements ↔
      ∃ others, Program rest others ∧ statements = statement :: others := by
  constructor
  · obtain ⟨token, more, shape, starts⟩ := first.head
    generalize same : tokens ++ rest = all
    intro derives
    cases derives with
    | done => simp [shape] at same
    | ended =>
        rw [shape] at same
        cases same
        simp at starts
    | skipped =>
        rw [shape] at same
        cases same
        simp at starts
    | next firstToo others =>
        obtain ⟨rfl, rfl⟩ := first.split firstToo same
        exact ⟨_, others, rfl⟩
  · rintro ⟨others, derives, rfl⟩
    exact .next first derives

/--
A program up to the end of a text is followed by the program of what takes its
place.
-/
theorem Program.append_iff
    {front rest : Tokens}
    {ending : Position}
    {statements : List Statement}
    (derives : Program (front ++ [⟨ending, .eof⟩]) statements)
    (noEnd : ∀ token ∈ front, token.item ≠ .eof)
    {all : List Statement} :
    Program (front ++ rest) all ↔
      ∃ others, Program rest others ∧ all = statements ++ others := by
  generalize shape : front ++ [⟨ending, .eof⟩] = tokens at derives
  induction derives generalizing front all with
  | done => simp at shape
  | ended =>
      cases front with
      | nil => simp
      | cons token more =>
          cases shape
          exact absurd rfl (noEnd _ List.mem_cons_self)
  | skipped _ inductionHypothesis =>
      cases front with
      | nil => cases shape
      | cons token more =>
          cases shape
          rw [List.cons_append, skipped_iff]
          exact inductionHypothesis
            (fun other member => noEnd other (List.mem_cons_of_mem _ member))
            rfl
  | @next tokens others statement statements first _ inductionHypothesis =>
      -- The end of the text belongs to no statement.
      obtain ⟨between, rfl, rfl⟩ :
          ∃ between, front = tokens ++ between ∧
            others = between ++ [⟨ending, .eof⟩] := by
        rcases List.append_eq_append_iff.mp shape with
            ⟨between, isTokens, isEnd⟩ | ⟨between, isFront, isOthers⟩
        · obtain ⟨body, position, isStatement⟩ := first.last
          cases between with
          | nil =>
              exact ⟨[], by simpa using isTokens.symm,
                by simpa using isEnd.symm⟩
          | cons token more =>
              obtain ⟨rfl, nothing⟩ := List.cons.inj isEnd
              obtain ⟨rfl, -⟩ := List.append_eq_nil_iff.mp nothing.symm
              have lasts :=
                (List.append_inj' (isTokens.symm.trans isStatement) rfl).2
              cases lasts
        · exact ⟨between, isFront, isOthers⟩
      have later (all : List Statement) := @inductionHypothesis between
        (fun other member => noEnd other (List.mem_append_right tokens member))
        all rfl
      rw [List.append_assoc, next_iff first]
      simp only [later, List.cons_append]
      constructor
      · rintro ⟨_, ⟨more, moreDerives, rfl⟩, rfl⟩
        exact ⟨more, moreDerives, rfl⟩
      · rintro ⟨more, moreDerives, rfl⟩
        exact ⟨_, ⟨more, moreDerives, rfl⟩, rfl⟩

end Grammar

namespace Lexical

/-- The end of the text is no lexeme. -/
theorem Spells.not_eof
    {kind : Kind}
    {lexeme : List Char}
    {meaning : Meaning}
    {token : Token}
    (spells : Spells kind lexeme meaning)
    (held : meaning.Held token) :
    token ≠ .eof := by
  cases spells with
  | lineComment | blockComment | string | hexInteger =>
      cases held
      exact nofun
  | decimal =>
      unfold numberMeaning at held
      split at held <;> cases held <;> exact nofun
  | @word first others =>
      have given : ∀ entry ∈ keywords, entry.2 ≠ .eof := by decide
      cases held
      cases found : keywords.lookup (first :: others) with
      | none => exact nofun
      | some token =>
          obtain ⟨before, after, shape, -⟩ := List.lookup_eq_some_iff.mp found
          exact given (first :: others, token) (by simp [shape])
  | symbol listed =>
      have given : ∀ entry ∈ symbols, entry.2 ≠ .eof := by decide
      cases held
      exact given _ listed

theorem Cut.not_eof
    {before text : List Char}
    {pieces : List Piece}
    (cut : Cut before text pieces) :
    ∀ piece ∈ pieces, piece.token.item ≠ .eof := by
  induction cut with
  | done => simp
  | blank _ _ inductionHypothesis => exact inductionHypothesis
  | lexeme _ longest held _ inductionHypothesis =>
      exact List.forall_mem_cons.mpr
        ⟨longest.spells.not_eof held, inductionHypothesis⟩

end Lexical

/-- How many lines a source takes when another one stands below. -/
def lineCount (source : String) : Nat :=
  source.toList.count '\n' + 1

/--
Below a source that is cut, another one is scanned as it is on its own, and what
is found there, tokens or a malformed lexeme, is some lines further down.
-/
theorem scan_append_break
    {first : String}
    {pieces : List Lexical.Piece}
    (cut : Lexical.Cut [] first.toList pieces)
    (second : String) :
    Token.scan (first ++ "\n" ++ second) =
      match Token.scan second with
      | .ok others =>
          .ok (pieces.map Lexical.Piece.token ++
            others.map (Located.relocate (Position.lower (lineCount first))))
      | .error error =>
          .error ⟨error.fault, error.position.lower (lineCount first)⟩ := by
  have text : (first ++ "\n" ++ second).toList =
      first.toList ++ '\n' :: second.toList := by
    simp
  have below : Lexical.place ([] ++ first.toList ++ ['\n']) =
      Position.start.lower (lineCount first) := by
    simp [Lexical.place, Position.lower, Position.start, lineCount,
      Nat.add_comm]
  have joined :
      Token.scan (first ++ "\n" ++ second) =
        (Token.scanFrom (Position.start.lower (lineCount first))
          second.toList).map (pieces.map Lexical.Piece.token ++ ·) := by
    rw [Token.scan, text, ← below]
    exact cut.scanFrom_append_break second.toList
  rw [joined, Token.scanFrom_relocate (Position.inStep_lower _ _), Token.scan]
  cases Token.scanFrom Position.start second.toList with
  | ok others => rfl
  | error error => rfl

/--
Below a source that is scanned, the tokens of another one are some lines further
down.
-/
theorem scan_below
    {first : String}
    {pieces : List Lexical.Piece}
    (cut : Lexical.Cut [] first.toList pieces)
    (second : String)
    (tokens : List (Located Token)) :
    Token.scan (first ++ "\n" ++ second) = .ok tokens ↔
      ∃ others, Token.scan second = .ok others ∧
        tokens = pieces.map Lexical.Piece.token ++
          others.map (Located.relocate (Position.lower (lineCount first))) := by
  rw [scan_append_break cut second]
  cases Token.scan second with
  | ok others => simp [eq_comm]
  | error error => simp

/--
Scanning is compositional at line breaks.  The tokens of a source that is
scanned end in the mark of its end, which is the only one.  Below such a source
another one is scanned exactly when it is on its own: its tokens then follow
those of the first without that mark, on lines further down and in the same
columns, and the malformed lexeme for which it is refused is reported on a line
further down, too.
-/
theorem scanned_line_by_line
    {first : String}
    {tokens : List (Located Token)}
    (scanned : Token.scan first = .ok tokens) :
    ∃ front ending,
      tokens = front ++ [⟨ending, .eof⟩] ∧
      (∀ token ∈ front, token.item ≠ .eof) ∧
      ∀ second : String,
        ((∃ all, Token.scan (first ++ "\n" ++ second) = .ok all) ↔
          ∃ others, Token.scan second = .ok others) ∧
        (∀ others, Token.scan second = .ok others →
          Token.scan (first ++ "\n" ++ second) =
            .ok (front ++
              others.map
                (Located.relocate (Position.lower (lineCount first))))) ∧
        ∀ error, Token.scan second = .error error →
          Token.scan (first ++ "\n" ++ second) =
            .error ⟨error.fault, error.position.lower (lineCount first)⟩ := by
  obtain ⟨pieces, cut, rfl⟩ := Lexical.scan_eq_ok_iff.mp scanned
  refine ⟨pieces.map Lexical.Piece.token, Lexical.place first.toList, rfl, ?_,
    ?_⟩
  · intro token member
    obtain ⟨piece, isPiece, rfl⟩ := List.mem_map.mp member
    exact cut.not_eof piece isPiece
  · intro second
    rw [scan_append_break cut second]
    refine ⟨?_, ?_, ?_⟩
    · cases Token.scan second with
      | ok others => exact iff_of_true ⟨_, rfl⟩ ⟨others, rfl⟩
      | error error => exact iff_of_false nofun nofun
    · intro others scannedToo
      rw [scannedToo]
    · intro error fails
      rw [fails]

/--
A comment does not swallow the next line, and a string left open there is
reported there.
-/
theorem scanned_line_by_line_comment :
    ∃ front ending,
      Token.scan "x = /* a\n */ 1; // b" = .ok (front ++ [⟨ending, .eof⟩]) ∧
      Token.scan ("x = /* a\n */ 1; // b" ++ "\n" ++ " y") =
        .ok (front ++ [⟨⟨3, 2⟩, .name "y"⟩, ⟨⟨3, 3⟩, .eof⟩]) ∧
      Token.scan ("x = /* a\n */ 1; // b" ++ "\n" ++ " \"y") =
        .error ⟨.unterminatedString, ⟨3, 2⟩⟩ := by
  have scanned :
      Token.scan "x = /* a\n */ 1; // b" =
        .ok [⟨⟨1, 1⟩, .name "x"⟩, ⟨⟨1, 3⟩, .mark .assign⟩,
          ⟨⟨1, 5⟩, .comment "a"⟩, ⟨⟨2, 5⟩, .literal (.int 1)⟩,
          ⟨⟨2, 6⟩, .mark .semicolon⟩, ⟨⟨2, 8⟩, .comment "b"⟩,
          ⟨⟨2, 12⟩, .eof⟩] := by
    decide +kernel
  have named : Token.scan " y" = .ok [⟨⟨1, 2⟩, .name "y"⟩, ⟨⟨1, 3⟩, .eof⟩] := by
    decide +kernel
  have opened : Token.scan " \"y" = .error ⟨.unterminatedString, ⟨1, 2⟩⟩ := by
    decide +kernel
  obtain ⟨front, ending, shape, -, below⟩ := scanned_line_by_line scanned
  have lines : lineCount "x = /* a\n */ 1; // b" = 2 := by
    decide +kernel
  refine ⟨front, ending, shape ▸ scanned, ?_, ?_⟩
  · rw [(below " y").2.1 _ named, lines]
    rfl
  · rw [(below " \"y").2.2 _ opened, lines]
    rfl

namespace Machine

/--
Below a source that is parsed, another one is parsed as it is on its own, and
its statements follow those of the first some lines further down.
-/
theorem parse_below
    {file other joined : String}
    {first : String}
    {statements : List Statement}
    (parsed : parse file first = .ok statements)
    (second : String)
    (all : List Statement) :
    parse joined (first ++ "\n" ++ second) = .ok all ↔
      ∃ others, parse other second = .ok others ∧
        all = statements ++ others.map
          (Statement.relocate (Position.lower (lineCount first))) := by
  obtain ⟨tokens, scanned, built⟩ := parse_eq_ok_iff.mp parsed
  obtain ⟨pieces, cut, rfl⟩ := Lexical.scan_eq_ok_iff.mp scanned
  have derives := Grammar.program_iff.mp built
  have visible : Token.clean (Lexical.tokensOf pieces first.toList) =
      Token.clean (pieces.map Lexical.Piece.token) ++
        [⟨Lexical.place first.toList, .eof⟩] := by
    simp [Lexical.tokensOf, Token.clean, Token.isComment]
  rw [visible] at derives
  have noEnd : ∀ token ∈ Token.clean (pieces.map Lexical.Piece.token),
      token.item ≠ .eof := by
    intro token member
    obtain ⟨piece, isPiece, rfl⟩ :=
      List.mem_map.mp (List.mem_filter.mp member).1
    exact cut.not_eof piece isPiece
  have cancels := Position.raise_comp_lower (lineCount first)
  have below (others : List (Located Token)) :
      Parse.program (pieces.map Lexical.Piece.token ++
          others.map (Located.relocate (Position.lower (lineCount first)))) =
            .ok all ↔
        ∃ more, Parse.program others = .ok more ∧
          all = statements ++ more.map
            (Statement.relocate (Position.lower (lineCount first))) := by
    rw [Grammar.program_iff, Token.clean, List.filter_append, ← Token.clean,
      ← Token.clean, Token.clean_relocate, derives.append_iff noEnd]
    simp only [Grammar.Program.relocate_iff cancels, Grammar.program_iff]
    constructor
    · rintro ⟨_, ⟨more, moreDerives, rfl⟩, rfl⟩
      exact ⟨more, moreDerives, rfl⟩
    · rintro ⟨more, moreDerives, rfl⟩
      exact ⟨_, ⟨more, moreDerives, rfl⟩, rfl⟩
  simp only [parse_eq_ok_iff, scan_below cut]
  constructor
  · rintro ⟨_, ⟨others, scannedOthers, rfl⟩, builtAll⟩
    obtain ⟨more, builtOthers, rfl⟩ := (below others).mp builtAll
    exact ⟨more, ⟨others, scannedOthers, builtOthers⟩, rfl⟩
  · rintro ⟨more, ⟨others, scannedOthers, builtOthers⟩, rfl⟩
    exact ⟨_, ⟨others, scannedOthers, rfl⟩,
      (below others).mpr ⟨more, builtOthers, rfl⟩⟩

end Machine

end Formulary
