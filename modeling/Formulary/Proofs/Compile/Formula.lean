import Formulary.Proofs.Source.Formula

namespace Formulary

open Stateful Grammar

/-!
# Formulas of compiled programs

A compiled program folds into one piece of formula, and that piece reads back
as a tree of the program.  The argument follows the compiler: each expression
adds its own cell to the programs of its operands.
-/

namespace Compile

section Pieces

variable
  {signatures : Signatures}
  {params : List String}

/-- A program with its piece of formula. -/
structure Phrased
    (signatures : Signatures)
    (params : List String)
    (code : Code)
    (phrase : Phrase) : Prop where
  folds :
    ∀ (stack : List Phrase) (rest : Code),
      Code.phrases stack (code ++ rest) = Code.phrases (phrase :: stack) rest
  reads :
    FormulaOf signatures params phrase.binding.category phrase.text.toList code
  fresh : code.StartsFresh

/-- Programs that follow each other leave their pieces on the stack. -/
theorem phrases_flatten
    {codes : List Code}
    {phrases : List Phrase}
    (phrased : List.Forall₂ (Phrased signatures params) codes phrases)
    (stack : List Phrase)
    (rest : Code) :
    Code.phrases stack (codes.flatten ++ rest) =
      Code.phrases (phrases.reverse ++ stack) rest := by
  induction phrased generalizing stack with
  | nil => rfl
  | @cons code phrase codes phrases first others inductionHypothesis =>
      rw [List.flatten_cons, List.append_assoc, first.folds,
        inductionHypothesis, List.reverse_cons, List.append_assoc,
        List.singleton_append]

/-- A cell behind the programs of its operands. -/
theorem phrases_cell
    {codes : List Code}
    {phrases : List Phrase}
    (phrased : List.Forall₂ (Phrased signatures params) codes phrases)
    {cell : Cell}
    (complete : cell.pops = codes.length)
    (stack : List Phrase)
    (rest : Code) :
    Code.phrases stack (codes.flatten ++ [cell] ++ rest) =
      Code.phrases (Phrase.ofCell cell phrases :: stack) rest := by
  have operands : cell.pops = phrases.reverse.length := by
    rw [complete, phrased.length_eq, List.length_reverse]
  have enough : ¬ (phrases.reverse ++ stack).length < cell.pops := by
    rw [List.length_append]
    omega
  rw [List.append_assoc, phrases_flatten phrased, List.singleton_append,
    Code.phrases, if_neg enough, operands, List.take_left, List.drop_left,
    List.reverse_reverse]

/-- The texts of pieces read back as expressions. -/
theorem formulas_of_phrased
    {codes : List Code}
    {phrases : List Phrase}
    (phrased : List.Forall₂ (Phrased signatures params) codes phrases) :
    List.Forall₂
      (fun (text : String) code =>
        FormulaOf signatures params .expression text.toList code)
      (phrases.map Phrase.text) codes := by
  induction phrased with
  | nil => exact .nil
  | cons first others inductionHypothesis =>
      exact .cons first.reads.asExpression inductionHypothesis

theorem fresh_of_phrased
    {codes : List Code}
    {phrases : List Phrase}
    (phrased : List.Forall₂ (Phrased signatures params) codes phrases) :
    ∀ code ∈ codes, code.StartsFresh := by
  induction phrased with
  | nil => simp
  | cons first others inductionHypothesis =>
      exact List.forall_mem_cons.mpr ⟨first.fresh, inductionHypothesis⟩

theorem text_literal
    (value : Value) :
    (Phrase.literal value).text = value.literal := by
  cases value <;> rfl

theorem phrases_push
    (value : Value)
    (stack : List Phrase)
    (rest : Code) :
    Code.phrases stack (Code.push value ++ rest) =
      Code.phrases (Phrase.literal value :: stack) rest := by
  have enough : ¬ stack.length < (Cell.literal value).pops := Nat.not_lt_zero _
  rw [Code.push, List.singleton_append, Code.phrases, if_neg enough]
  rfl

theorem startsFresh_push (value : Value) : (Code.push value).StartsFresh := by
  simp [Code.push, Code.StartsFresh]

/-- A literal without a sign. -/
theorem phrased_literal
    {value : Value}
    (lexical : (Token.literal value).Lexical) :
    Phrased signatures params (Code.push value) (Phrase.literal value) where
  folds := phrases_push value
  reads := by
    have primary : (Phrase.literal value).binding = .primary := by
      cases value with
      | int n =>
          have nonnegative : ¬ n < 0 := by
            rw [Int64.lt_iff_toInt_lt]
            exact Int.not_lt.mpr lexical
          exact if_neg nonnegative
      | double x =>
          have nonnegative : ¬ x.isNegative = true := by simp [lexical.2]
          exact if_neg nonnegative
      | string | bool => rfl
    rw [primary, text_literal]
    exact formula_literal lexical
  fresh := startsFresh_push value

/-- A literal with a sign. -/
theorem phrased_negatedLiteral
    {position : Position}
    {value negated : Value}
    (lexical : (Token.literal value).Lexical)
    (folds : negatedLiteral? (.literal position value) = some negated)
    (notZero : negated ≠ .int 0) :
    Phrased signatures params (Code.push negated) (Phrase.literal negated) where
  folds := phrases_push negated
  reads := by
    have signed :
        (Phrase.literal negated).binding = .unary ∧
          negated.literal.toList = '-' :: value.literal.toList := by
      cases value with
      | int n =>
          cases folds
          have nonnegative : 0 ≤ n.toInt := lexical
          have upper := n.toInt_lt
          have opposite : (-n).toInt = -n.toInt := by
            rw [Int64.toInt_neg, Int.bmod_eq_of_le (by omega) (by omega)]
          have notNull : n.toInt ≠ 0 := by
            intro null
            have isZero : n = 0 := Int64.toInt_inj.mp (by simpa using null)
            rw [isZero] at notZero
            exact notZero rfl
          have negative : -n.toInt < 0 := by omega
          have below : -n < 0 := by
            rw [Int64.lt_iff_toInt_lt, opposite]
            exact negative
          refine ⟨if_pos below, ?_⟩
          simp only [Value.literal, Value.writeWith, toList_toString_int,
            opposite, if_pos negative, if_neg (Int.not_lt.mpr nonnegative),
            Int.natAbs_neg]
          rfl
      | double x =>
          cases folds
          obtain ⟨finite, nonnegative⟩ := lexical
          have negative : x.neg.isNegative = true := by
            rw [Double.isNegative_neg, nonnegative]; rfl
          have sameSize : x.neg.abs = x :=
            Double.eq_of_magnitude (by rw [Double.isNegative_abs, nonnegative])
              (by rw [Double.magnitude_abs, Double.magnitude_neg])
          have stillFinite : x.neg.isFinite = true := by
            rw [Double.isFinite, Double.magnitude_neg]
            exact finite
          refine ⟨if_pos negative, ?_⟩
          simp only [Value.literal, Value.writeWith,
            Lexeme.toList_write stillFinite, negative, if_true, sameSize]
          rfl
      | string | bool => cases folds
    rw [signed.1, text_literal]
    refine formula_negatedLiteral lexical ?_ notZero signed.2
    intro inner
    cases value <;> exact folds
  fresh := startsFresh_push negated

theorem phrased_name
    {name : String}
    (isName : Lexeme.IsName name)
    (resolved : valueOf signatures params name = .ok (.variable name))
    (fresh : Code.StartsFresh [.variable name]) :
    Phrased signatures params [.variable name] (Phrase.primary name) where
  folds := by
    intro stack rest
    rw [List.singleton_append, Code.phrases]
    rfl
  reads := formula_name isName resolved
  fresh := fresh

theorem Phrased.negate
    {code : Code}
    {phrase : Phrase}
    (phrased : Phrased signatures params code phrase)
    (endsInZero : code.endsInZero false = true → code = Code.push (.int 0))
    (onlyZero :
      ∀ {inner : Position} {value negated : Value},
        (Token.literal value).Lexical →
        code = Code.push value →
        negatedLiteral? (.literal inner value) = some negated →
          value = .int 0)
    (fresh : Code.StartsFresh (code ++ [.op .negate])) :
    Phrased signatures params (code ++ [.op .negate])
      ⟨"-" ++ phrase.asOperand .primary, .unary⟩ where
  folds := by
    intro stack rest
    rw [List.append_assoc, phrased.folds]
    rfl
  reads := formula_negate phrased.reads endsInZero onlyZero
  fresh := fresh

theorem Phrased.square
    {code : Code}
    {phrase : Phrase}
    (phrased : Phrased signatures params code phrase)
    (fresh : Code.StartsFresh (code ++ [.op .square])) :
    Phrased signatures params (code ++ [.op .square])
      ⟨phrase.asOperand .unary ++ " ^ 2", .power⟩ where
  folds := by
    intro stack rest
    rw [List.append_assoc, phrased.folds]
    rfl
  reads := formula_square phrased.reads
  fresh := fresh

theorem Phrased.binary
    {op : BinaryOp}
    {leftCode rightCode : Code}
    {left right : Phrase}
    (leftPhrased : Phrased signatures params leftCode left)
    (rightPhrased : Phrased signatures params rightCode right)
    (notSquare : op = .pow → rightCode ≠ Code.push (.int 2))
    (fresh : Code.StartsFresh (leftCode ++ rightCode ++ [.op (.binary op)])) :
    Phrased signatures params (leftCode ++ rightCode ++ [.op (.binary op)])
      (Phrase.binary op left right) where
  folds := by
    intro stack rest
    rw [List.append_assoc, List.append_assoc, leftPhrased.folds,
      rightPhrased.folds]
    rfl
  reads := formula_binary leftPhrased.reads rightPhrased.reads
    rightPhrased.fresh notSquare
  fresh := fresh

/-- The cell of a call is written with its name. -/
theorem ofCell_of_callCell
    {name : String}
    {count : Nat}
    {cell : Cell}
    (resolved : callCell signatures params name count = .ok cell)
    (operands : List Phrase) :
    Phrase.ofCell cell operands = Phrase.call name operands := by
  rcases callCell_cases resolved with
      ⟨builtin, found, rfl, -⟩ | ⟨-, rfl, -⟩ | ⟨-, rfl, -⟩
  · have named : builtin.name = name := by simpa using List.find?_some found
    rw [← named]
    cases builtin <;> rfl
  · rfl
  · rfl

theorem phrased_call
    {name : String}
    (isName : Lexeme.IsName name)
    {cell : Cell}
    {codes : List Code}
    {phrases : List Phrase}
    (resolved : callCell signatures params name codes.length = .ok cell)
    (phrased : List.Forall₂ (Phrased signatures params) codes phrases)
    (fresh : Code.StartsFresh (codes.flatten ++ [cell])) :
    Phrased signatures params (codes.flatten ++ [cell])
      (Phrase.call name phrases) where
  folds := by
    intro stack rest
    rw [phrases_cell phrased (pops_of_callCell resolved),
      ofCell_of_callCell resolved]
  reads := formula_call isName resolved (formulas_of_phrased phrased)
    (fresh_of_phrased phrased)
  fresh := fresh

theorem phrased_element
    {name : String}
    (isName : Lexeme.IsName name)
    {codes : List Code}
    {phrases : List Phrase}
    (resolved :
      elementCell signatures params name codes.length =
        .ok (.element name codes.length))
    (phrased : List.Forall₂ (Phrased signatures params) codes phrases)
    (given : codes ≠ [])
    (fresh : Code.StartsFresh (codes.flatten ++ [.element name codes.length])) :
    Phrased signatures params (codes.flatten ++ [.element name codes.length])
      (Phrase.element name phrases) where
  folds := phrases_cell phrased rfl
  reads := by
    have texts :
        (phrases.map fun index => "[" ++ index.text ++ "]") =
          (phrases.map Phrase.text).map fun text => "[" ++ text ++ "]" := by
      rw [List.map_map]
      rfl
    have somePhrases : phrases.map Phrase.text ≠ [] := by
      rw [Ne, List.map_eq_nil_iff, ← List.length_eq_zero_iff,
        ← phrased.length_eq, List.length_eq_zero_iff]
      exact given
    rw [Phrase.element, texts]
    exact formula_element isName resolved (formulas_of_phrased phrased)
      (fresh_of_phrased phrased) somePhrases
  fresh := fresh

end Pieces

section Programs

variable
  {signatures : Signatures}
  {params : List String}

/-- An array has at least one index. -/
theorem ne_zero_of_elementCell
    (ranked : ∀ name, signatures.get? name ≠ some (.array 0))
    {name : String}
    {count : Nat}
    {cell : Cell}
    (resolved : elementCell signatures params name count = .ok cell) :
    count ≠ 0 := by
  unfold elementCell rankOf at resolved
  split at resolved
  · cases resolved
  · rename_i rank found
    split at found
    · cases found
    · split at found <;> cases found
      rename_i isArray
      split at resolved
      · rename_i same
        rintro rfl
        exact ranked name (same ▸ isArray)
      · cases resolved

mutual

/-- The program of an expression has a piece of formula. -/
theorem phrased_of_emit
    (ranked : ∀ name, signatures.get? name ≠ some (.array 0))
    (tree : Expr)
    (lexical : tree.Lexical)
    {code : Code}
    (compiled : emit signatures params tree = .ok code) :
    ∃ phrase, Phrased signatures params code phrase := by
  have fresh := (startsFresh_of_emit tree compiled).2
  cases tree with
  | literal position value =>
      cases compiled
      exact ⟨_, phrased_literal (lexical _ List.mem_cons_self)⟩
  | name position name =>
      obtain ⟨cell, resolved, last⟩ := except_bind_eq_ok.mp compiled
      cases last
      have found := ok_of_anchor resolved
      obtain rfl := variable_of_valueOf found
      have isName : Lexeme.IsName name :=
        lexical (.name name) List.mem_cons_self
      exact ⟨_, phrased_name isName found fresh⟩
  | call position name arguments =>
      obtain ⟨cell, resolved, rest⟩ := except_bind_eq_ok.mp compiled
      obtain ⟨argumentCode, argumentsCompile, last⟩ := except_bind_eq_ok.mp rest
      cases last
      obtain ⟨codes, phrases, rfl, counted, phrased⟩ :=
        phrased_of_emitAll ranked arguments lexical.of_call argumentsCompile
      have isName : Lexeme.IsName name :=
        lexical (.name name) List.mem_cons_self
      have found := ok_of_anchor resolved
      rw [← counted] at found
      exact ⟨_, phrased_call isName found phrased fresh⟩
  | element position name indices =>
      obtain ⟨cell, resolved, rest⟩ := except_bind_eq_ok.mp compiled
      obtain ⟨indexCode, indicesCompile, last⟩ := except_bind_eq_ok.mp rest
      cases last
      obtain ⟨codes, phrases, rfl, counted, phrased⟩ :=
        phrased_of_emitAll ranked indices lexical.of_element indicesCompile
      have isName : Lexeme.IsName name :=
        lexical (.name name) List.mem_cons_self
      have found := ok_of_anchor resolved
      rw [← counted] at found
      have given : codes ≠ [] := by
        rintro rfl
        exact ne_zero_of_elementCell ranked found rfl
      obtain rfl := element_of_elementCell found
      exact ⟨_, phrased_element isName found phrased given fresh⟩
  | negate position operand =>
      simp only [emit] at compiled
      split at compiled
      · rename_i value folds
        cases compiled
        by_cases isZero : value = .int 0
        · subst isZero
          exact ⟨_, phrased_literal (by decide : 0 ≤ (0 : Int64).toInt)⟩
        · cases operand with
          | literal inner other =>
              have inside : (Token.literal other).Lexical :=
                lexical _ List.mem_cons_self
              exact ⟨_, phrased_negatedLiteral inside folds isZero⟩
          | name | call | element | negate | binary => cases folds
      · rename_i notFolded
        obtain ⟨operandCode, operandCompiles, last⟩ :=
          except_bind_eq_ok.mp compiled
        cases last
        obtain ⟨phrase, phrased⟩ :=
          phrased_of_emit ranked operand lexical operandCompiles
        exact ⟨_, phrased.negate (eq_zero_of_endsInZero operandCompiles)
          (eq_zero_of_not_folded operandCompiles lexical notFolded) fresh⟩
  | binary position op left right =>
      obtain ⟨leftLexical, rightLexical⟩ := lexical.of_binary
      simp only [emit] at compiled
      split at compiled
      · obtain ⟨baseCode, baseCompiles, last⟩ := except_bind_eq_ok.mp compiled
        cases last
        obtain ⟨phrase, phrased⟩ :=
          phrased_of_emit ranked left leftLexical baseCompiles
        exact ⟨_, phrased.square fresh⟩
      · rename_i notSquare
        obtain ⟨leftCode, leftCompiles, rest⟩ := except_bind_eq_ok.mp compiled
        obtain ⟨rightCode, rightCompiles, last⟩ := except_bind_eq_ok.mp rest
        cases last
        obtain ⟨leftPhrase, leftPhrased⟩ :=
          phrased_of_emit ranked left leftLexical leftCompiles
        obtain ⟨rightPhrase, rightPhrased⟩ :=
          phrased_of_emit ranked right rightLexical rightCompiles
        have notTwo := ne_two_of_not_square rightCompiles rightLexical notSquare
        exact ⟨_, leftPhrased.binary rightPhrased notTwo fresh⟩

/-- So do the programs of several expressions. -/
theorem phrased_of_emitAll
    (ranked : ∀ name, signatures.get? name ≠ some (.array 0))
    (trees : List Expr)
    (lexical : ∀ tree ∈ trees, tree.Lexical)
    {code : Code}
    (compiled : emitAll signatures params trees = .ok code) :
    ∃ codes phrases, codes.flatten = code ∧ codes.length = trees.length ∧
      List.Forall₂ (Phrased signatures params) codes phrases := by
  cases trees with
  | nil =>
      cases compiled
      exact ⟨[], [], rfl, rfl, .nil⟩
  | cons tree rest =>
      obtain ⟨firstCode, firstCompiles, more⟩ := except_bind_eq_ok.mp compiled
      obtain ⟨restCode, restCompiles, last⟩ := except_bind_eq_ok.mp more
      cases last
      obtain ⟨phrase, phrased⟩ :=
        phrased_of_emit ranked tree
          (lexical tree List.mem_cons_self) firstCompiles
      have restLexical : ∀ other ∈ rest, other.Lexical := fun other member =>
        lexical other (List.mem_cons_of_mem tree member)
      obtain ⟨codes, phrases, rfl, counted, others⟩ :=
        phrased_of_emitAll ranked rest restLexical restCompiles
      exact ⟨firstCode :: codes, phrase :: phrases, rfl, by simp [counted],
        .cons phrased others⟩

end

/-- The formula of a compiled program reads back. -/
theorem formula_of_emit
    (ranked : ∀ name, signatures.get? name ≠ some (.array 0))
    {tree : Expr}
    (lexical : tree.Lexical)
    {code : Code}
    (compiled : emit signatures params tree = .ok code) :
    FormulaOf signatures params .expression
      (Code.formula code).toList code := by
  obtain ⟨phrase, phrased⟩ := phrased_of_emit ranked tree lexical compiled
  have folded : Code.phrases [] code = some [phrase] := by
    have folds := phrased.folds [] []
    rwa [List.append_nil] at folds
  have text : Code.formula code = phrase.text := by
    rw [Code.formula, folded]
  rw [text]
  exact phrased.reads.asExpression

end Programs

end Compile

end Formulary
