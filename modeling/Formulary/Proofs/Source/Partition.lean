import Formulary.Proofs.Source.Numerals

namespace Formulary

/-!
# Scanning cuts the text

The scanner succeeds exactly when every lexeme that it comes to is well formed,
and then the tokens are those of the pieces of the text, each at the place of
its first character.
-/

namespace Lexical

/--
The kind of a lexeme that no comment, string or hexadecimal number starts with.
-/
theorem kindOf_cons
    {first : Char}
    {rest : List Char}
    (notQuote : first = '"' → False)
    (notLine : ∀ body, first = '/' → rest = '/' :: body → False)
    (notBlock : ∀ body, first = '/' → rest = '*' :: body → False)
    (notHex : ∀ body, first = '0' → rest = 'x' :: body → False)
    (notCapitalHex : ∀ body, first = '0' → rest = 'X' :: body → False) :
    kindOf (first :: rest) =
      if startsNumber (first :: rest) then .decimal
      else if startsWord (first :: rest) then .word
      else .symbol := by
  have notStarts :
      ∀ {c d : Char}, (∀ body, first = c → rest = d :: body → False) →
      ¬ [c, d] <+: first :: rest := by
    intro c d excluded starts
    obtain ⟨isFirst, body, isRest⟩ := List.cons_prefix_cons.mp starts
    exact excluded body isFirst.symm isRest.symm
  have notString : ¬ ['"'] <+: first :: rest := fun starts =>
    notQuote (List.cons_prefix_cons.mp starts).1.symm
  rw [kindOf, if_neg (notStarts notLine), if_neg (notStarts notBlock),
    if_neg notString,
    if_neg (not_or.mpr ⟨notStarts notHex, notStarts notCapitalHex⟩)]

theorem not_startsNumber
    {first : Char}
    {rest : List Char}
    (notDigit : ¬ first.isDigit = true)
    (notPoint : ∀ next tail, first = '.' → rest = next :: tail → False) :
    startsNumber (first :: rest) = false := by
  cases rest with
  | nil => simpa [startsNumber] using notDigit
  | cons next tail =>
      have isNoPoint : first ≠ '.' :=
        fun isPoint => notPoint next tail isPoint rfl
      simpa [startsNumber, isNoPoint] using notDigit

/-- The reader of the lexeme at the front of a text is the one of its kind. -/
theorem read_agrees (first : Char) (rest : List Char) :
    Agrees (kindOf (first :: rest)) (first :: rest)
      (Lexeme.read first rest) := by
  unfold Lexeme.read
  fun_cases Lexeme.classOf first rest with
  | case1 body =>
      have isKind : kindOf ('/' :: '/' :: body) = .lineComment := by
        simp [kindOf]
      rw [isKind]
      exact agrees_lineComment body
  | case2 body =>
      have isKind : kindOf ('/' :: '*' :: body) = .blockComment := by
        simp [kindOf]
      rw [isKind]
      exact agrees_blockComment body
  | case3 =>
      have isKind : kindOf ('"' :: rest) = .string := by simp [kindOf]
      rw [isKind]
      exact agrees_string rest
  | case4 body =>
      have isKind : kindOf ('0' :: 'x' :: body) = .hexInteger := by
        simp [kindOf]
      rw [isKind]
      exact agrees_hexInteger (by decide) body
  | case5 body =>
      have isKind : kindOf ('0' :: 'X' :: body) = .hexInteger := by
        simp [kindOf]
      rw [isKind]
      exact agrees_hexInteger (by decide) body
  | case6 next tail isDigit =>
      have starts : startsNumber ('.' :: next :: tail) = true := by
        simp [startsNumber, isDigit]
      have isKind : kindOf ('.' :: next :: tail) = .decimal := by
        rw [kindOf_cons (by simp) (by simp) (by simp) (by simp) (by simp),
          if_pos starts]
      rw [isKind]
      exact agrees_decimal starts
  | case7 next tail notDigit =>
      have notNumber : startsNumber ('.' :: next :: tail) = false := by
        simpa [startsNumber] using notDigit
      have notWord : startsWord ('.' :: next :: tail) = false := rfl
      have isKind : kindOf ('.' :: next :: tail) = .symbol := by
        rw [kindOf_cons (by simp) (by simp) (by simp) (by simp) (by simp),
          notNumber, notWord]
        rfl
      rw [isKind]
      exact agrees_symbol '.' (next :: tail)
  | case8 _ _ isDigit notQuote notLine notBlock notHex notCapitalHex notPoint =>
      have starts : startsNumber (first :: rest) = true := by
        simp [startsNumber, isDigit]
      rw [kindOf_cons notQuote notLine notBlock notHex notCapitalHex,
        if_pos starts, if_pos isDigit]
      exact agrees_decimal starts
  | case9 _ _ notDigit isStart notQuote notLine notBlock notHex
        notCapitalHex notPoint =>
      have notNumber := not_startsNumber notDigit notPoint
      have starts : startsWord (first :: rest) = true := by
        simpa [startsWord, Lexeme.isNameStart] using isStart
      rw [kindOf_cons notQuote notLine notBlock notHex notCapitalHex, notNumber,
        if_pos starts, if_neg notDigit, if_pos isStart]
      exact agrees_word isStart rest
  | case10 _ _ notDigit notStart notQuote notLine notBlock notHex
        notCapitalHex notPoint =>
      have notNumber := not_startsNumber notDigit notPoint
      have notWord : startsWord (first :: rest) = false := by
        simpa [startsWord, Lexeme.isNameStart] using notStart
      rw [kindOf_cons notQuote notLine notBlock notHex notCapitalHex, notNumber,
        notWord, if_neg notDigit, if_neg notStart]
      exact agrees_symbol first rest

/--
The reader succeeds with the longest lexeme at the front of a text and its
token.
-/
theorem read_eq_ok_iff
    {first : Char}
    {rest : List Char}
    {answer : Lexeme} :
    Lexeme.read first rest = .ok answer ↔
      ∃ lexeme meaning,
        Longest (kindOf (first :: rest)) (first :: rest) lexeme meaning ∧
        meaning.Held answer.token ∧ answer.more + 1 = lexeme.length :=
  (read_agrees first rest).eq_ok_iff

theorem place_concat (before : List Char) (c : Char) :
    place (before ++ [c]) = (place before).step c := by
  by_cases isBreak : c = '\n'
  · simp [place, Position.step, isBreak]
    omega
  · simp [place, Position.step, isBreak]
    omega

theorem place_append (before text : List Char) :
    place (before ++ text) = (place before).advance text := by
  induction text generalizing before with
  | nil => simp [Position.advance]
  | cons c rest inductionHypothesis =>
      rw [← List.singleton_append, ← List.append_assoc, inductionHypothesis,
        place_concat]
      rfl

theorem Spells.ne_nil
    {kind : Kind}
    {lexeme : List Char}
    {meaning : Meaning}
    (spells : Spells kind lexeme meaning) :
    lexeme ≠ [] := by
  cases spells with
  | lineComment | blockComment | string | hexInteger | word =>
      exact List.cons_ne_nil _ _
  | decimal spelled => exact spelled.ne_nil
  | symbol listed =>
      have given : ∀ entry ∈ symbols, entry.1 ≠ [] := by decide
      exact given _ listed

theorem Longest.unique
    {kind : Kind}
    {text lexeme other : List Char}
    {meaning otherMeaning : Meaning}
    (longest : Longest kind text lexeme meaning)
    (longestToo : Longest kind text other otherMeaning) :
    lexeme = other :=
  eq_of_starts longest.starts longestToo.starts
    (Nat.le_antisymm (longestToo.longest longest.starts longest.spells)
      (longest.longest longestToo.starts longestToo.spells))

/-- The longest lexeme starts with the first character of the text. -/
theorem Longest.exists_cons
    {kind : Kind}
    {first : Char}
    {rest lexeme : List Char}
    {meaning : Meaning}
    (longest : Longest kind (first :: rest) lexeme meaning) :
    ∃ others after, lexeme = first :: others ∧ rest = others ++ after := by
  obtain ⟨start, others, rfl⟩ :=
    List.exists_cons_of_ne_nil longest.spells.ne_nil
  obtain ⟨rfl, after, rfl⟩ := List.cons_prefix_cons.mp longest.starts
  exact ⟨others, after, rfl, rfl⟩

/-- The tokens of the pieces, and the end of the text. -/
def tokensOf
    (pieces : List Piece)
    (source : List Char) :
    List (Located Token) :=
  pieces.map Piece.token ++ [⟨place source, .eof⟩]

/-- A text that is cut is scanned. -/
theorem Cut.scanFrom
    {before text : List Char}
    {pieces : List Piece}
    (cut : Cut before text pieces) :
    Token.scanFrom (place before) text =
      .ok (tokensOf pieces (before ++ text)) := by
  induction cut with
  | @done before => rw [Token.scanFrom, tokensOf, List.append_nil]; rfl
  | @blank c before rest pieces isBlank _ inductionHypothesis =>
      rw [Token.scanFrom, if_pos isBlank, ← place_concat, inductionHypothesis,
        List.append_assoc, List.singleton_append]
  | @lexeme first before others rest meaning token pieces notBlank
        longest held _
      inductionHypothesis =>
      have reads :
          Lexeme.read first (others ++ rest) = .ok ⟨token, others.length⟩ :=
        read_eq_ok_iff.mpr ⟨_, meaning, longest, held, rfl⟩
      rw [List.cons_append, Token.scanFrom, if_neg (by simp [notBlank]), reads]
      simp only [List.take_left, List.drop_left, ← place_append,
        inductionHypothesis]
      rw [List.append_assoc, List.cons_append]
      rfl

/-- A text that is scanned is cut. -/
theorem exists_cut
    {before text : List Char}
    {tokens : List (Located Token)}
    (scanned : Token.scanFrom (place before) text = .ok tokens) :
    ∃ pieces, Cut before text pieces := by
  -- The induction is on the length, because a
  -- lexeme takes several characters at once.
  induction isLength : text.length
      using Nat.strongRecOn generalizing before text tokens with
  | ind length inductionHypothesis =>
      cases text with
      | nil => exact ⟨[], .done⟩
      | cons c rest =>
          rw [Token.scanFrom] at scanned
          split at scanned
          · rename_i isBlank
            rw [← place_concat] at scanned
            obtain ⟨pieces, cut⟩ :=
              inductionHypothesis _
                (by rw [← isLength]; exact Nat.lt_succ_self _) scanned rfl
            exact ⟨pieces, .blank isBlank cut⟩
          · rename_i notBlank
            split at scanned
            · cases scanned
            · rename_i answer reads
              obtain ⟨lexeme, meaning, longest, held, width⟩ :=
                read_eq_ok_iff.mp reads
              obtain ⟨others, after, rfl, rfl⟩ := longest.exists_cons
              have isMore : answer.more = others.length := by simpa using width
              rw [isMore] at scanned
              simp only [List.take_left,
                List.drop_left, ← place_append] at scanned
              split at scanned
              · rename_i later scannedLater
                have shorter : after.length < length := by
                  rw [← isLength, List.length_cons, List.length_append]
                  omega
                obtain ⟨pieces, cut⟩ :=
                  inductionHypothesis _ shorter scannedLater rfl
                exact ⟨_, .lexeme (by simpa using notBlank) longest held cut⟩
              · cases scanned

/-- The tokens that are scanned are those of the pieces. -/
theorem scan_eq_ok_iff
    {source : String}
    {tokens : List (Located Token)} :
    Token.scan source = .ok tokens ↔
      ∃ pieces, Cut [] source.toList pieces ∧
        tokens = tokensOf pieces source.toList := by
  have isStart : Token.scan source = Token.scanFrom (place []) source.toList :=
    rfl
  rw [isStart]
  constructor
  · intro scanned
    obtain ⟨pieces, cut⟩ := exists_cut scanned
    rw [cut.scanFrom] at scanned
    cases scanned
    exact ⟨pieces, cut, rfl⟩
  · rintro ⟨pieces, cut, rfl⟩
    exact cut.scanFrom

/-- The characters of a text that are not blank are those of its lexemes. -/
theorem Cut.characters
    {before text : List Char}
    {pieces : List Piece}
    (cut : Cut before text pieces) :
    text.filter (!Text.isBlank ·) =
      (pieces.flatMap Piece.lexeme).filter (!Text.isBlank ·) := by
  induction cut with
  | done => rfl
  | blank isBlank _ inductionHypothesis =>
      rw [List.filter_cons_of_neg (by simp [isBlank]), inductionHypothesis]
  | lexeme _ _ _ _ inductionHypothesis =>
      rw [List.filter_append, inductionHypothesis, List.flatMap_cons,
        List.filter_append]

/-- A meaning is well formed when a token holds it. -/
theorem Meaning.wellFormed_iff
    {meaning : Meaning} :
    meaning.WellFormed ↔ ∃ token, meaning.Held token := by
  cases meaning with
  | comment | string | word | symbol =>
      exact ⟨fun _ => ⟨_, by constructor⟩, fun _ => trivial⟩
  | float number =>
      constructor
      · intro finite
        exact ⟨_, .float finite⟩
      · rintro ⟨token, held⟩
        cases held with
        | float finite => exact finite
  | integer n =>
      constructor
      · intro fits
        have bounds : -2 ^ 63 ≤ (n : Int) ∧ (n : Int) < 2 ^ 63 := by
          unfold WellFormed at fits
          omega
        exact ⟨_, .integer (Int64.toInt_ofInt_of_le bounds.1 bounds.2)⟩
      · rintro ⟨token, held⟩
        cases held with
        | @integer _ word isValue =>
            have bound := word.toInt_lt
            unfold WellFormed
            omega

/-- What comes next behind the first character of a text. -/
theorem Reaches.of_cons
    {first : Char}
    {rest later : List Char}
    (reaches : Reaches (first :: rest) later) :
    later = first :: rest ∨
      (Text.isBlank first = true ∧ Reaches rest later) ∨
        ∃ others after meaning, Text.isBlank first = false ∧
          Longest (kindOf (first :: rest)) (first :: rest)
            (first :: others) meaning ∧
            rest = others ++ after ∧ Reaches after later := by
  generalize shape : first :: rest = text at reaches
  cases reaches with
  | here => exact .inl rfl
  | blank isBlank reaches =>
      cases shape
      exact .inr (.inl ⟨isBlank, reaches⟩)
  | lexeme notBlank longest reaches =>
      cases shape
      exact .inr (.inr ⟨_, _, _, notBlank, longest, rfl, reaches⟩)

/-- Whether the lexeme at the front of a text is there and well formed. -/
def WellFormedFront (text : List Char) : Prop :=
  ∃ lexeme meaning,
    Longest (kindOf text) text lexeme meaning ∧ meaning.WellFormed

/-- Every lexeme of a text that is cut is well formed. -/
theorem Cut.wellFormed
    {before text : List Char}
    {pieces : List Piece}
    (cut : Cut before text pieces)
    {first : Char}
    {rest : List Char}
    (reaches : Reaches text (first :: rest))
    (visible : Text.isBlank first = false) :
    WellFormedFront (first :: rest) := by
  induction cut with
  | done => cases reaches
  | blank isBlank _ inductionHypothesis =>
      rcases reaches.of_cons with same | ⟨-, later⟩ | ⟨_, _, _, notBlank, -⟩
      · cases same
        rw [isBlank] at visible
        cases visible
      · exact inductionHypothesis later
      · rw [isBlank] at notBlank
        cases notBlank
  | @lexeme start before others after meaning token pieces notBlank
        longest held _
      inductionHypothesis =>
      rcases reaches.of_cons with
          same | ⟨isBlank, -⟩ | ⟨_, _, _, -, longestToo, shape, later⟩
      · rw [same]
        exact ⟨_, meaning, longest, Meaning.wellFormed_iff.mpr ⟨token, held⟩⟩
      · rw [notBlank] at isBlank
        cases isBlank
      · cases longest.unique longestToo
        cases List.append_cancel_left shape
        exact inductionHypothesis later

/-- A text is cut when every lexeme of it is well formed. -/
theorem exists_cut_of_wellFormed
    {before text : List Char}
    (wellFormed :
      ∀ first rest, Reaches text (first :: rest) → Text.isBlank first = false →
        WellFormedFront (first :: rest)) :
    ∃ pieces, Cut before text pieces := by
  induction isLength : text.length
      using Nat.strongRecOn generalizing before text with
  | ind length inductionHypothesis =>
      cases text with
      | nil => exact ⟨[], .done⟩
      | cons c rest =>
          cases isBlank : Text.isBlank c with
          | true =>
              have shorter : rest.length < length := by
                rw [← isLength]
                exact Nat.lt_succ_self _
              obtain ⟨pieces, cut⟩ := inductionHypothesis _ shorter
                (fun first later reaches =>
                  wellFormed first later (.blank isBlank reaches)) rfl
              exact ⟨pieces, .blank isBlank cut⟩
          | false =>
              obtain ⟨lexeme, meaning, longest, isWellFormed⟩ :=
                wellFormed c rest .here isBlank
              obtain ⟨token, held⟩ := Meaning.wellFormed_iff.mp isWellFormed
              obtain ⟨others, after, rfl, rfl⟩ := longest.exists_cons
              have shorter : after.length < length := by
                rw [← isLength, List.length_cons, List.length_append]
                omega
              obtain ⟨pieces, cut⟩ := inductionHypothesis _ shorter
                (fun first later reaches =>
                  wellFormed first later (.lexeme isBlank longest reaches)) rfl
              exact ⟨_, .lexeme isBlank longest held cut⟩

/--
The scanner succeeds exactly when every lexeme of the source is there and well
formed.  The tokens are then those of the pieces of the source, in order, and
one for its end.  Each token stands at the line and the column of its first
character, and no character that is not blank is left out or belongs to two
pieces.
-/
theorem scan_partitions (source : String) :
    ((∃ tokens, Token.scan source = .ok tokens) ↔
      ∀ first rest,
        Reaches source.toList (first :: rest) → Text.isBlank first = false →
        WellFormedFront (first :: rest)) ∧
    (∀ tokens, Token.scan source = .ok tokens ↔
      ∃ pieces, Cut [] source.toList pieces ∧
        tokens = pieces.map Piece.token ++ [⟨place source.toList, .eof⟩] ∧
          source.toList.filter (!Text.isBlank ·) =
            (pieces.flatMap Piece.lexeme).filter (!Text.isBlank ·)) := by
  constructor
  · constructor
    · rintro ⟨tokens, scanned⟩ first rest reaches visible
      obtain ⟨pieces, cut, -⟩ := scan_eq_ok_iff.mp scanned
      exact cut.wellFormed reaches visible
    · intro wellFormed
      obtain ⟨pieces, cut⟩ := exists_cut_of_wellFormed wellFormed
      exact ⟨_, scan_eq_ok_iff.mpr ⟨pieces, cut, rfl⟩⟩
  · intro tokens
    rw [scan_eq_ok_iff]
    constructor
    · rintro ⟨pieces, cut, rfl⟩
      exact ⟨pieces, cut, rfl, cut.characters⟩
    · rintro ⟨pieces, cut, rfl, -⟩
      exact ⟨pieces, cut, rfl⟩

end Lexical

end Formulary
