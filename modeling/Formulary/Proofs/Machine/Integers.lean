import Formulary.Proofs.Eval.IntegerWalk
import Formulary.Proofs.Machine.Given
import Formulary.Proofs.Source.Partition
import Formulary.Proofs.Source.Recognition

namespace Formulary

open Stateful

/-!
# Integer expressions are exact

Evaluating the text of an integer formula gives its value, whatever the machine
holds, or an arithmetic error if some value on the way is no word.  No result
wraps, is rounded or changes its type.
-/

namespace Machine

/-- The text of a formula of integers compiles on every machine. -/
theorem compile_integers
    (machine : Machine)
    {source : String}
    {pieces : List Lexical.Piece}
    {phrase : Grammar.Derivation.Standalone}
    {formula : IntegerFormula}
    (cut : Lexical.Cut [] source.toList pieces)
    (derived :
      phrase.tokens = Token.clean (Lexical.tokensOf pieces source.toList))
    (denotes : IntegerFormula.Denotes phrase.value formula) :
    ∃ code, machine.compile source = .ok code ∧ code.Closed ∧
      Formula.Compiles
        ⟨Signatures.ofEntries machine.entries, phrase.value⟩ code := by
  have scanned :
      Token.scan source = .ok (Lexical.tokensOf pieces source.toList) :=
    Lexical.scan_eq_ok_iff.mpr ⟨pieces, cut, rfl⟩
  have parsed := Grammar.parse_standalone phrase derived
  obtain ⟨code, emitted, closed⟩ :=
    denotes.emits (Signatures.ofEntries machine.entries)
  have compiled := Compile.expr_eq_ok_iff.mpr emitted
  have within : phrase.tree.tokens <:+: phrase.tokens := by
    rw [Grammar.Derivation.Standalone.tokens, List.append_assoc]
    exact (List.prefix_append _ _).isInfix
  have written : Grammar.Written phrase.value :=
    ⟨source, _, phrase.tree.tokens, scanned, derived ▸ within,
      phrase.tree.derives⟩
  refine ⟨code, ?_, closed, .compiled written compiled⟩
  simp only [compile, scanned, parsed, compiled, Except.mapError,
    except_bind_ok]

/--
A program without names runs as the walk over its tree says, among any entries.
-/
theorem runTop_of_closed
    {signatures : Signatures}
    {tree : Expr}
    {code : Code}
    (compiles : Formula.Compiles ⟨signatures, tree⟩ code)
    (closed : code.Closed)
    (config : Config)
    (scopes : Scopes)
    (stack : Stack) :
    reached id (Eval.runTop config scopes none code ⟨stack, 0, 0⟩) =
      match
        Walk.formula config config.maxCallDepth ⟨fun _ => none, []⟩ none
          ⟨signatures, tree⟩ stack.depth 0
      with
      | .ok value _ => .ok value
      | .error failure _ => .error (.runtime failure) := by
  have mirrors : (⟨fun _ => none, []⟩ : Context).Mirrors Scopes.empty :=
    ⟨fun _ => .none, rfl⟩
  have mimics :=
    Eval.runProgram_follows config config.maxCallDepth _ _ none _ _
      mirrors compiles
  rw [Eval.runTop,
    Eval.runProgram_of_closed closed config _ scopes Scopes.empty none none]
  split
  · rename_i value later walked
    have ran := mimics.succeeds stack.cells 0 walked
    simp only [Eval.above, Eval.literals_nil, List.nil_append] at ran
    rw [ran]
    rfl
  · rename_i failure later walked
    obtain ⟨rubble, ran⟩ := mimics.fails stack.cells 0 walked
    simp only [Eval.above, Eval.literals_nil, List.nil_append] at ran
    rw [ran]
    rfl

/--
Integer expressions are exact.  Take a text that the lexical grammar cuts into
lexemes, a derivation of their tokens, and a formula of integers that the
derived tree denotes.  On every machine, evaluating the text gives the exact
value of the formula as an integer, if all values on the way are words, no
divisor is zero and no limit is exceeded.  If some value on the way is no word,
or some divisor is zero, it fails with an arithmetic error.  There is no other
outcome but the error of a limit, and only of one that the formula exceeds.
-/
theorem integer_expressions_are_exact
    (machine : Machine)
    {source : String}
    {pieces : List Lexical.Piece}
    {phrase : Grammar.Derivation.Standalone}
    {formula : IntegerFormula}
    (cut : Lexical.Cut [] source.toList pieces)
    (derived :
      phrase.tokens = Token.clean (Lexical.tokensOf pieces source.toList))
    (denotes : IntegerFormula.Denotes phrase.value formula) :
    (formula.Fits ∧
        (∀ limit, ¬ formula.Exceeds machine.config machine.stack.depth limit) ∧
        ∃ word : Int64,
          given (eval source machine) = .ok (.int word) ∧
            word.toInt = formula.value) ∨
      (¬ formula.Fits ∧
        ∃ fault,
          given (eval source machine) =
            .error (.runtime (Failure.ofFault (.arithmetic fault)))) ∨
      ∃ limit,
        formula.Exceeds machine.config machine.stack.depth limit ∧
          given (eval source machine) =
            .error (.runtime (Failure.ofFault (.nonTermination limit))) := by
  obtain ⟨code, compiled, closed, compiles⟩ :=
    compile_integers machine cut derived denotes
  have evaluates : given (eval source machine) = _ :=
    (given_eval machine.config machine.stack compiled).trans
      (runTop_of_closed compiles closed machine.config machine.scopes
        machine.stack)
  rw [evaluates]
  have ends :=
    denotes.formula_ends machine.config ⟨fun _ => none, []⟩ none
      (Signatures.ofEntries machine.entries) machine.stack.depth
  generalize Walk.formula _ _ _ _ _ _ _ = result at ends ⊢
  cases ends with
  | @value word fits exact allowed =>
      exact .inl ⟨fits, allowed, word, rfl, exact⟩
  | fault unfit => exact .inr (.inl ⟨unfit, _, rfl⟩)
  | limited exceeds => exact .inr (.inr ⟨_, exceeds, rfl⟩)

/--
A text with a hexadecimal literal, a division toward zero and the square of a
maximum.
-/
theorem integer_expressions_are_exact_maximum :
    given (eval "max(abs(-0x10) - 3 * 2, -(7 / -2)) ^ 2" (ofConfig {})) =
      .ok (.int 100) := by
  have reads : ∃ tokens tree,
      Token.scan "max(abs(-0x10) - 3 * 2, -(7 / -2)) ^ 2" = .ok tokens ∧
        Parse.standalone tokens = .ok tree ∧
        IntegerFormula.Denotes tree
          (.unary .square (.binary .max
            (.binary .sub (.unary .abs (.unary .negate (.literal 16)))
              (.binary .mul (.literal 3) (.literal 2)))
            (.unary .negate
              (.binary .div (.literal 7) (.unary .negate (.literal 2)))))) := by
    refine ⟨[⟨⟨1, 1⟩, .name "max"⟩, ⟨⟨1, 4⟩, .mark .openParen⟩,
      ⟨⟨1, 5⟩, .name "abs"⟩, ⟨⟨1, 8⟩, .mark .openParen⟩,
      ⟨⟨1, 9⟩, .operator .sub⟩, ⟨⟨1, 10⟩, .literal (.int 16)⟩,
      ⟨⟨1, 14⟩, .mark .closeParen⟩, ⟨⟨1, 16⟩, .operator .sub⟩,
      ⟨⟨1, 18⟩, .literal (.int 3)⟩, ⟨⟨1, 20⟩, .operator .mul⟩,
      ⟨⟨1, 22⟩, .literal (.int 2)⟩, ⟨⟨1, 23⟩, .mark .comma⟩,
      ⟨⟨1, 25⟩, .operator .sub⟩, ⟨⟨1, 26⟩, .mark .openParen⟩,
      ⟨⟨1, 27⟩, .literal (.int 7)⟩, ⟨⟨1, 29⟩, .operator .div⟩,
      ⟨⟨1, 31⟩, .operator .sub⟩, ⟨⟨1, 32⟩, .literal (.int 2)⟩,
      ⟨⟨1, 33⟩, .mark .closeParen⟩, ⟨⟨1, 34⟩, .mark .closeParen⟩,
      ⟨⟨1, 36⟩, .operator .pow⟩, ⟨⟨1, 38⟩, .literal (.int 2)⟩,
      ⟨⟨1, 39⟩, .eof⟩], _, ?_, rfl, ?_⟩
    · decide +kernel
    · refine .square (@IntegerFormula.Denotes.call₂ _ .max _ _ _ _ _ rfl ?_ ?_)
      · refine .operator rfl
          (@IntegerFormula.Denotes.call₁ _ .abs _ _ _ rfl ?_) ?_
        · exact .negate (.literal rfl)
        · exact .operator rfl (.literal rfl) (.literal rfl)
      · exact .negate (.operator rfl (.literal rfl) (.negate (.literal rfl)))
  obtain ⟨tokens, tree, scanned, parsed, denotes⟩ := reads
  obtain ⟨pieces, cut, rfl⟩ := Lexical.scan_eq_ok_iff.mp scanned
  obtain ⟨phrase, derived, rfl⟩ := Grammar.standalone_iff.mp parsed
  rcases integer_expressions_are_exact (ofConfig {}) cut derived denotes with
      ⟨-, -, word, gives, exact⟩ | ⟨unfit, -⟩ | ⟨limit, exceeds, -⟩
  · have hundred : word = 100 := Int64.toInt_inj.mp exact
    rw [gives, hundred]
  · exact absurd (by decide) unfit
  · cases limit with
    | callDepth most => exact absurd exceeds.2 (by rw [← exceeds.1]; decide)
    | steps most => cases exceeds.1
    | stackSize most => exact absurd exceeds.2 (by rw [← exceeds.1]; decide)

/-- The least word has no absolute value. -/
example :
    given (eval "abs(-9223372036854775807 - 1)" (ofConfig {})) =
      .error (.runtime
        (Failure.ofFault (.arithmetic (.absOverflow Int64.minValue)))) := by
  decide +kernel

end Machine

end Formulary
