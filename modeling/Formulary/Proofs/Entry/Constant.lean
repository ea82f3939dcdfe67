import Formulary.Proofs.Compile.Extension
import Formulary.Proofs.Compile.Writable
import Formulary.Proofs.Machine.ReadBack
import Formulary.Proofs.Source.Lines

namespace Formulary

open Grammar Stateful Token

/-!
# Lines of constants

A scalar with a value is written as its name bound to the literal of this value,
and a scalar without one as a comment.  Each line is parsed on its own: as one
statement, as none, or not at all, when the value is the smallest integer, whose
digits make no integer without their sign.
-/

/-- The first line of a text is one line. -/
theorem Text.firstLine_no_break
    (text : String) :
    '\n' ∉ (firstLine text).toList := by
  have line : '\n' ∉ text.toList.takeWhile (· ≠ '\n') := by
    intro member
    simpa using List.mem_takeWhile_imp member
  simp only [firstLine, String.toList_ofList]
  split
  · exact fun member => line (List.mem_of_mem_dropLast member)
  · exact line

/-- A statement that binds a name to an expression. -/
def Statement.BindsScalar (statement : Statement) : Prop :=
  ∃ name tree, statement.action = .scalar name tree

theorem Statement.BindsScalar.relocate
    {statement : Statement}
    (binds : statement.BindsScalar)
    (move : Position → Position) :
    (statement.relocate move).BindsScalar := by
  obtain ⟨name, tree, isScalar⟩ := binds
  refine ⟨name, tree.relocate move, ?_⟩
  rw [Statement.relocate, isScalar]
  rfl

/-- A statement restates an entry wherever it stands. -/
theorem Restates.relocate
    {signatures : Signatures}
    {entry : Entry}
    {action : Action}
    (restates : Restates signatures entry action)
    (move : Position → Position) :
    Restates signatures entry (action.relocate move) := by
  have grows : signatures.Extends signatures := fun _ _ declared => declared
  cases restates with
  | scalar compiled => exact .scalar (Compile.expr_extends move grows compiled)
  | function compiled =>
      exact .function (Compile.expr_extends move grows compiled)
  | array sized compiled =>
      refine .array ?_ ?_
      · rw [List.forall₂_map_right_iff]
        exact sized.imp fun size tree compiles =>
          Compile.expr_extends move grows compiles
      · rw [List.forall₂_map_left_iff]
        exact compiled.imp fun tree code compiles =>
          Compile.expr_extends move grows compiles
  | curve placed =>
      refine .curve ?_
      rw [List.forall₂_map_right_iff]
      exact placed.imp fun point pair places =>
        ⟨Compile.expr_extends move grows places.1,
          Compile.expr_extends move grows places.2⟩

namespace Lexeme

/--
The digits of the smallest integer are too large for an integer without a sign.
-/
theorem read_smallest
    {rest : List Char}
    (delimited : Delimited rest) :
    ∃ issue, read '9' ("223372036854775808".toList ++ rest) = .error issue := by
  have plain : NumberText.Plain ⟨"9223372036854775808".toList, none, none⟩ :=
    { whole := ⟨List.cons_ne_nil _ _, List.all_eq_true.mp rfl⟩
      fraction := nofun
      exponent := nofun }
  have scanned :
      NumberText.ofText ('9' :: ("223372036854775808".toList ++ rest)) =
        ⟨"9223372036854775808".toList, none, none⟩ :=
    NumberText.ofText_spelled plain delimited
  have notHex :
      ∀ c ∈ ("223372036854775808".toList ++ rest).head?, c ≠ 'x' ∧ c ≠ 'X' := by
    intro c isFirst
    cases isFirst
    decide
  rw [read, NumberText.classOf_of_isDigit (by decide) notHex]
  simp only [decimal, scanned]
  exact ⟨_, rfl⟩

end Lexeme

namespace Grammar

/-- A name is an expression. -/
theorem readsAs_name
    {name : String}
    (isName : Lexeme.IsName name) :
    ReadsAs (Single .expression) name.toList (fun _ => True) := by
  refine ⟨[.name name], Lexeme.spells_name isName, ?_⟩
  intro located items
  obtain ⟨position, rfl⟩ := exists_of_map_item_singleton items
  have derives :
      Derives Binding.primary.category [⟨position, .name name⟩]
        [.name position name] :=
    .name
  have expression : Derives Binding.comparison.category _ _ :=
    Derives.loosen (Nat.zero_le _) derives
  exact ⟨.name position name, expression, trivial⟩

/-- A name behind a minus is an expression. -/
theorem readsAs_negatedName
    {name : String}
    (isName : Lexeme.IsName name) :
    ReadsAs (Single .expression) ('-' :: name.toList) (fun _ => True) := by
  refine ⟨[.operator .sub, .name name],
    Lexeme.spells_minus.append (Lexeme.spells_name isName) fun _ _ => trivial,
    ?_⟩
  intro located items
  obtain ⟨position, rest, rfl, restItems⟩ := exists_of_map_item_cons items
  obtain ⟨inner, rfl⟩ := exists_of_map_item_singleton restItems
  have derives :
      Derives Binding.unary.category
        [⟨position, .operator .sub⟩, ⟨inner, .name name⟩]
        [.negate position (.name inner name)] :=
    .negated (.onePrimary .name)
  have expression : Derives Binding.comparison.category _ _ :=
    Derives.loosen (Nat.zero_le _) derives
  exact ⟨.negate position (.name inner name), expression, trivial⟩

end Grammar

namespace Machine

/-- A scalar as its value, or as a comment with the first line of its error. -/
def constantText (name : String) : Except Error Value → String
  | .ok value => name ++ " = " ++ value.literal ++ ";"
  | .error error => "// " ++ name ++ ": " ++ Text.firstLine error.message

/-- A line behind two slashes is no statement. -/
theorem parse_comment
    {text : String}
    (noBreak : '\n' ∉ text.toList)
    (file : String) :
    parse file ("//" ++ text) = .ok [] := by
  have line : text.toList.takeWhile (· ≠ '\n') = text.toList := by
    rw [List.takeWhile_eq_self_iff]
    intro c member
    simp only [decide_eq_true_eq]
    rintro rfl
    exact noBreak member
  have read :
      Lexeme.read '/' ('/' :: text.toList) =
        .ok ⟨.comment (String.ofList (Text.trim text.toList)),
          text.toList.length + 1⟩ := by
    simp only [Lexeme.read, Lexeme.classOf, Lexeme.lineComment, line]
  have scanned :
      ∃ comment position,
        Token.scan ("//" ++ text) =
          .ok [⟨Position.start, .comment comment⟩, ⟨position, .eof⟩] := by
    have shape : ("//" ++ text).toList = '/' :: '/' :: text.toList := by
      rw [String.toList_append]
      rfl
    rw [Token.scan, shape, scanFrom, if_neg (by decide), read]
    simp only [List.drop_succ_cons, List.drop_length, scanFrom]
    exact ⟨_, _, rfl⟩
  obtain ⟨comment, position, scanned⟩ := scanned
  refine parse_eq_ok_iff.mpr ⟨_, scanned, program_iff.mpr ?_⟩
  exact .ended

/-- A declaration on its own is one statement. -/
theorem parse_of_declaration
    {text : String}
    {holds : Action → Prop}
    (reads : ReadsAs Declaration text.toList holds)
    (file : String) :
    ∃ statement,
      parse file text = .ok [statement] ∧ holds statement.action := by
  have alone :
      ReadsAs Entry.Declarations text.toList
        (fun actions => ∃ action, actions = [action] ∧ holds action) := by
    refine reads.imp fun tokens action declares isHeld =>
      ⟨[action], ?_, action, rfl, isHeld⟩
    obtain ⟨name, position, semicolon, rest, rfl, isRead⟩ := declares
    intro ending
    have all : AllRead
        (⟨position, .name name⟩ :: rest ++ ⟨semicolon, .mark .semicolon⟩
          :: [⟨ending, .eof⟩]) [action] :=
      .next isRead .done
    simpa using all
  obtain ⟨program, parsed, action, isAction, isHeld⟩ :=
    parse_of_readsAs alone file
  obtain ⟨statement, rfl, rfl⟩ := List.map_eq_singleton_iff.mp isAction
  exact ⟨statement, parsed, isHeld⟩

/-- The infinities and no number are written as names. -/
theorem readsAs_notFinite
    {x : Double}
    (notFinite : x.isFinite = false) :
    ReadsAs (Single .expression) (Value.double x).literal.toList
      (fun _ => True) := by
  have infinity : Lexeme.IsName "inf" :=
    ⟨⟨_, _, rfl, by decide, List.all_eq_true.mp rfl⟩, by decide⟩
  have noNumber : Lexeme.IsName "NaN" :=
    ⟨⟨_, _, rfl, by decide, List.all_eq_true.mp rfl⟩, by decide⟩
  have written : (Value.double x).literal = NumberLayout.marked.write x := rfl
  rw [written, NumberLayout.write]
  split
  · exact readsAs_name noNumber
  · cases x.isNegative with
    | false =>
        simp only [notFinite, Bool.not_false, if_true]
        exact readsAs_name infinity
    | true =>
        simp only [notFinite, Bool.not_false, if_true, String.toList_ofList]
        exact readsAs_negatedName infinity

/-- A text without lexemes has no statements. -/
theorem parse_empty (file : String) : parse file "" = .ok [] := by
  have scanned : Token.scan "" = .ok [⟨Position.start, .eof⟩] := by
    rw [Token.scan]
    exact scanFrom.eq_1 _
  exact parse_eq_ok_iff.mpr ⟨_, scanned, program_iff.mpr .ended⟩

section Values

variable
  {name : String}
  (isName : Lexeme.IsName name)
  (file : String)

include isName

/-- The line of a scalar without a value is a comment. -/
theorem parse_failed (error : Error) :
    parse file (constantText name (.error error)) = .ok [] := by
  obtain ⟨first, rest, shape, starts, continues⟩ := isName.shape
  have noBreakInName : '\n' ∉ name.toList := by
    rw [shape, List.mem_cons, not_or]
    refine ⟨?_, Lexical.not_mem_of_class (by decide) continues⟩
    rintro rfl
    exact absurd starts (by decide)
  have text :
      constantText name (.error error) =
        "//" ++ (" " ++ name ++ ": " ++ Text.firstLine error.message) := by
    simp only [constantText, ← String.append_assoc]
    rfl
  rw [text]
  refine parse_comment ?_ file
  simp only [String.toList_append, List.mem_append, not_or]
  exact ⟨⟨⟨by decide, noBreakInName⟩, by decide⟩,
    Text.firstLine_no_break error.message⟩

/--
The line of a writable value binds the name to a program that pushes the value.
-/
theorem parse_writable
    (signatures : Signatures)
    {value : Value}
    (writable : value.Writable) :
    ∃ statement, parse file (constantText name (.ok value)) = .ok [statement] ∧
      Restates signatures ⟨name, .scalar (Code.push value)⟩
        statement.action := by
  have expression :
      FormulaOf signatures [] .expression value.literal.toList
        (Code.push value) :=
    Compile.formula_writable writable
  refine parse_of_declaration ?_ file
  refine (Entry.readsAs_binding isName expression).imp
    fun tokens action declares read => ?_
  obtain ⟨tree, rfl, restores⟩ := read
  exact ⟨.scalar name tree, declares, .scalar restores.compiled_push⟩

/--
The line of a double that is not finite binds the name to another name, perhaps
negated.
-/
theorem parse_notFinite
    {x : Double}
    (notFinite : x.isFinite = false) :
    ∃ statement,
      parse file (constantText name (.ok (.double x))) = .ok [statement] ∧
      ∃ tree, statement.action = .scalar name tree := by
  have binds :
      ReadsAs Declaration (constantText name (.ok (.double x))).toList
        (fun action => ∃ tree, action = .scalar name tree) := by
    refine (Entry.readsAs_binding isName (readsAs_notFinite notFinite)).imp
      fun tokens action declares read => ?_
    obtain ⟨tree, rfl, -⟩ := read
    exact ⟨.scalar name tree, declares, tree, rfl⟩
  exact parse_of_declaration binds file

/--
Every other line than that of the smallest integer binds nothing but scalars.
-/
theorem parse_constantText
    {result : Except Error Value}
    (notSmallest : result ≠ .ok (.int Int64.minValue)) :
    ∃ statements, parse file (constantText name result) = .ok statements ∧
      ∀ statement ∈ statements, statement.BindsScalar := by
  cases result with
  | error error => exact ⟨[], parse_failed isName file error, nofun⟩
  | ok value =>
      by_cases writable : value.Writable
      · obtain ⟨⟨position, action⟩, parsed, restates⟩ :=
          parse_writable isName file Signatures.empty writable
        refine ⟨[⟨position, action⟩], parsed, ?_⟩
        intro other member
        obtain rfl := List.mem_singleton.mp member
        cases restates with
        | scalar compiled => exact ⟨_, _, rfl⟩
      · cases value with
        | double x =>
            have notFinite : x.isFinite = false := by
              simpa [Value.Writable] using writable
            obtain ⟨statement, parsed, tree, isScalar⟩ :=
              parse_notFinite isName file notFinite
            refine ⟨[statement], parsed, ?_⟩
            intro other member
            obtain rfl := List.mem_singleton.mp member
            exact ⟨name, tree, isScalar⟩
        | int n =>
            obtain rfl : n = Int64.minValue := by
              simpa [Value.Writable] using writable
            exact absurd rfl notSmallest
        | string | bool => exact absurd trivial writable

/-- The line of the smallest integer is not read, whatever stands below. -/
theorem parse_smallest
    (below : String)
    (program : List Statement) :
    parse file
      (constantText name (.ok (.int Int64.minValue)) ++ "\n" ++ below) ≠
      .ok program := by
  intro parsed
  obtain ⟨tokens, scanned, -⟩ := parse_eq_ok_iff.mp parsed
  have spellsHead :
      Spells Anything (" = ".toList ++ ['-']) [.mark .assign, .operator .sub] :=
    spells_equals.append Lexeme.spells_minus fun _ _ => trivial
  have spells :
      Spells Anything (name.toList ++ (" = ".toList ++ ['-']))
        [.name name, .mark .assign, .operator .sub] := by
    refine (Lexeme.spells_name isName).append spellsHead ?_
    exact fits_cons (by decide) _
  obtain ⟨next, located, -, scans⟩ :=
    spells.scanned Position.start
      ('9' :: ("223372036854775808".toList ++ ';' :: '\n' :: below.toList))
      trivial
  have text :
      (constantText name (.ok (.int Int64.minValue)) ++ "\n" ++ below).toList =
        name.toList ++ (" = ".toList ++ ['-']) ++
          '9' ::
            ("223372036854775808".toList ++ ';' :: '\n' :: below.toList) := by
    have literal :
        (Value.int Int64.minValue).literal = "-9223372036854775808" := by cbv
    simp [constantText, literal]
  obtain ⟨issue, fails⟩ :=
    Lexeme.read_smallest
      (delimited_cons (by decide : ';' ∈ delimiters) ('\n' :: below.toList))
  rw [Token.scan, text, scans, scanFrom, if_neg (by decide), fails] at scanned
  cases scanned

end Values

/-- Scalars and what became of them, one line each. -/
def constantTexts (results : List (String × Except Error Value)) : String :=
  Text.unlines (results.map fun result => constantText result.1 result.2)

/-- The scalars that have a value, bound to it. -/
def constantEntries
    (results : List (String × Except Error Value)) :
    List Entry :=
  results.filterMap fun result =>
    match result.2 with
    | .ok value => some ⟨result.1, .scalar (Code.push value)⟩
    | .error _ => none

theorem mem_constantEntries
    {results : List (String × Except Error Value)}
    {entry : Entry} :
    entry ∈ constantEntries results ↔
      ∃ name value,
        (name, .ok value) ∈ results ∧
          entry = ⟨name, .scalar (Code.push value)⟩ := by
  simp only [constantEntries, List.mem_filterMap]
  constructor
  · rintro ⟨⟨name, result⟩, member, bound⟩
    cases result with
    | error error => cases bound
    | ok value =>
        cases bound
        exact ⟨name, value, member, rfl⟩
  · rintro ⟨name, value, member, rfl⟩
    exact ⟨(name, .ok value), member, rfl⟩

/-- Constants are bound to names of scalars, in their order. -/
theorem names_constantEntries (results : List (String × Except Error Value)) :
    ((constantEntries results).map Entry.name).Sublist
      (results.map Prod.fst) := by
  induction results with
  | nil => exact .slnil
  | cons first rest inductionHypothesis =>
      obtain ⟨name, result⟩ := first
      cases result with
      | error error => exact .cons name inductionHypothesis
      | ok value => exact .cons_cons name inductionHypothesis

theorem constantTexts_cons
    (name : String)
    (result : Except Error Value)
    (rest : List (String × Except Error Value)) :
    constantTexts ((name, result) :: rest) =
      constantText name result ++ "\n" ++ constantTexts rest := by
  simp only [constantTexts, Text.unlines, List.map_cons, String.join_cons]

/--
Lines of writable values are statements that bind the names to the values.
-/
theorem parse_constantTexts
    (file : String)
    (signatures : Signatures)
    {results : List (String × Except Error Value)}
    (named : ∀ result ∈ results, Lexeme.IsName result.1)
    (writable :
      ∀ result ∈ results, ∀ value, result.2 = .ok value → value.Writable) :
    ∃ program, parse file (constantTexts results) = .ok program ∧
      List.Forall₂ (Restates signatures) (constantEntries results)
        (program.map Statement.action) := by
  induction results with
  | nil => exact ⟨[], parse_empty file, .nil⟩
  | cons first rest inductionHypothesis =>
      obtain ⟨name, result⟩ := first
      obtain ⟨isName, restNamed⟩ := List.forall_mem_cons.mp named
      obtain ⟨isWritable, restWritable⟩ := List.forall_mem_cons.mp writable
      obtain ⟨others, parsedOthers, restate⟩ :=
        inductionHypothesis restNamed restWritable
      -- What stands below the line is the same program some lines further down.
      have lower (move : Position → Position) :
          List.Forall₂ (Restates signatures) (constantEntries rest)
            ((others.map (Statement.relocate move)).map Statement.action) := by
        rw [List.forall₂_map_right_iff] at restate
        rw [List.map_map, List.forall₂_map_right_iff]
        exact restate.imp fun entry statement restates => restates.relocate move
      rw [constantTexts_cons]
      cases result with
      | error error =>
          exact ⟨_, (parse_below (parse_failed isName file error) _ _).mpr
            ⟨others, parsedOthers, rfl⟩, lower _⟩
      | ok value =>
          obtain ⟨statement, parsed, restates⟩ :=
            parse_writable isName file signatures (isWritable value rfl)
          exact ⟨_, (parse_below parsed _ _).mpr ⟨others, parsedOthers, rfl⟩,
            .cons restates (lower _)⟩

/--
Lines that are read do not hold the smallest integer, and bind nothing but
scalars.
-/
theorem of_parse_constantTexts
    {file : String}
    {results : List (String × Except Error Value)}
    (named : ∀ result ∈ results, Lexeme.IsName result.1)
    {program : List Statement}
    (parsed : parse file (constantTexts results) = .ok program) :
    (∀ result ∈ results, result.2 ≠ .ok (.int Int64.minValue)) ∧
      ∀ statement ∈ program, statement.BindsScalar := by
  induction results generalizing program with
  | nil =>
      cases (parse_empty file).symm.trans parsed
      exact ⟨List.forall_mem_nil _, List.forall_mem_nil _⟩
  | cons first rest inductionHypothesis =>
      obtain ⟨name, result⟩ := first
      obtain ⟨isName, restNamed⟩ := List.forall_mem_cons.mp named
      rw [constantTexts_cons] at parsed
      have notSmallest : result ≠ .ok (.int Int64.minValue) := by
        rintro rfl
        exact parse_smallest isName file (constantTexts rest) program parsed
      obtain ⟨statements, parsedLine, bind⟩ :=
        parse_constantText isName file notSmallest
      obtain ⟨others, parsedOthers, rfl⟩ :=
        (parse_below parsedLine _ _).mp parsed
      obtain ⟨restNotSmallest, othersBind⟩ :=
        inductionHypothesis restNamed parsedOthers
      refine ⟨List.forall_mem_cons.mpr ⟨notSmallest, restNotSmallest⟩, ?_⟩
      refine List.forall_mem_append.mpr ⟨bind, ?_⟩
      rw [List.forall_mem_map]
      exact fun statement member => (othersBind statement member).relocate _

end Machine

end Formulary
