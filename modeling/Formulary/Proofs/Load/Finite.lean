import Formulary.Proofs.Eval.Finite
import Formulary.Proofs.Load.Loaded

namespace Formulary

open Stateful

/-!
# Loaded programs are finite

The scanner refuses numbers that are not finite, so the literals of source text
are finite, and so are those of all programs that are compiled from it.
-/

namespace Compile

variable
  {signatures : Signatures}
  {params : List String}

/-- A negated literal of source text is finite. -/
theorem finite_of_negatedLiteral?
    {tree : Expr}
    (lexical : tree.Lexical)
    {value : Value}
    (folds : negatedLiteral? tree = some value) :
    value.Finite := by
  unfold negatedLiteral? at folds
  split at folds
  · cases folds
    trivial
  · rename_i position x
    cases folds
    have literal : (Token.literal (.double x)).Lexical :=
      lexical _ List.mem_cons_self
    exact Double.isFinite_neg literal.1
  · cases folds

theorem finite_of_lexical
    {value : Value}
    (lexical : (Token.literal value).Lexical) :
    value.Finite := by
  cases value with
  | double x => exact lexical.1
  | int | string | bool => trivial

/-- A called name is no literal. -/
theorem finite_of_callCell
    {name : String}
    {count : Nat}
    {cell : Cell}
    (resolved : callCell signatures params name count = .ok cell) :
    cell.Finite := by
  rcases callCell_cases resolved with
      ⟨builtin, -, rfl, -⟩ | ⟨-, rfl, -⟩ | ⟨-, rfl, -⟩ <;> trivial

mutual

/-- The program of an expression of source text has finite literals. -/
theorem finite_of_emit
    (tree : Expr)
    (lexical : tree.Lexical)
    {code : Code}
    (compiled : emit signatures params tree = .ok code) :
    code.Finite := by
  cases tree with
  | literal position value =>
      cases compiled
      exact Code.finite_push (finite_of_lexical (lexical _ List.mem_cons_self))
  | name position name =>
      obtain ⟨cell, resolved, last⟩ := except_bind_eq_ok.mp compiled
      cases last
      obtain rfl := variable_of_valueOf (ok_of_anchor resolved)
      simp [Code.Finite, Cell.Finite]
  | call position name arguments =>
      obtain ⟨cell, resolved, rest⟩ := except_bind_eq_ok.mp compiled
      obtain ⟨argumentCode, argumentsCompile, last⟩ := except_bind_eq_ok.mp rest
      cases last
      exact List.forall_mem_append.mpr
        ⟨finite_of_emitAll arguments lexical.of_call argumentsCompile,
          by simpa using finite_of_callCell (ok_of_anchor resolved)⟩
  | element position name indices =>
      obtain ⟨cell, resolved, rest⟩ := except_bind_eq_ok.mp compiled
      obtain ⟨indexCode, indicesCompile, last⟩ := except_bind_eq_ok.mp rest
      cases last
      obtain rfl := element_of_elementCell (ok_of_anchor resolved)
      exact List.forall_mem_append.mpr
        ⟨finite_of_emitAll indices lexical.of_element indicesCompile,
          by simp [Cell.Finite]⟩
  | negate position operand =>
      have operandLexical : operand.Lexical := lexical
      simp only [emit] at compiled
      split at compiled
      · rename_i value folds
        cases compiled
        exact Code.finite_push (finite_of_negatedLiteral? operandLexical folds)
      · obtain ⟨operandCode, operandCompiles, last⟩ :=
          except_bind_eq_ok.mp compiled
        cases last
        exact List.forall_mem_append.mpr
          ⟨finite_of_emit operand operandLexical operandCompiles,
            by simp [Cell.Finite]⟩
  | binary position op left right =>
      obtain ⟨leftLexical, rightLexical⟩ := lexical.of_binary
      simp only [emit] at compiled
      split at compiled
      · obtain ⟨baseCode, baseCompiles, last⟩ := except_bind_eq_ok.mp compiled
        cases last
        exact List.forall_mem_append.mpr
          ⟨finite_of_emit left leftLexical baseCompiles, by simp [Cell.Finite]⟩
      · obtain ⟨leftCode, leftCompiles, rest⟩ := except_bind_eq_ok.mp compiled
        obtain ⟨rightCode, rightCompiles, last⟩ := except_bind_eq_ok.mp rest
        cases last
        have operands : Code.Finite (leftCode ++ rightCode) :=
          List.forall_mem_append.mpr
            ⟨finite_of_emit left leftLexical leftCompiles,
              finite_of_emit right rightLexical rightCompiles⟩
        exact List.forall_mem_append.mpr ⟨operands, by simp [Cell.Finite]⟩

theorem finite_of_emitAll
    (trees : List Expr)
    (lexical : ∀ tree ∈ trees, tree.Lexical)
    {code : Code}
    (compiled : emitAll signatures params trees = .ok code) :
    code.Finite := by
  cases trees with
  | nil =>
      cases compiled
      exact nofun
  | cons tree rest =>
      obtain ⟨firstCode, firstCompiles, more⟩ := except_bind_eq_ok.mp compiled
      obtain ⟨restCode, restCompiles, last⟩ := except_bind_eq_ok.mp more
      cases last
      obtain ⟨treeLexical, restLexical⟩ := List.forall_mem_cons.mp lexical
      exact List.forall_mem_append.mpr
        ⟨finite_of_emit tree treeLexical firstCompiles,
          finite_of_emitAll rest restLexical restCompiles⟩

end

end Compile

namespace Machine

/-- Every table of the machine has finite values only. -/
def TablesFinite
    (machine : Machine)
    (extrapolation : Curve.Extrapolation) :
    Prop :=
  ∀ entry ∈ machine.entries, ∀ curve,
    entry.definition = .curve curve → curve.Finite extrapolation

/-- Every program of a loaded machine has finite literals. -/
theorem Loaded.finite
    {machine : Machine}
    (loaded : machine.Loaded) :
    ∀ entry ∈ machine.entries, ∀ code ∈ entry.programs, code.Finite := by
  refine loaded.globals
    (fun bindings => ∀ entry ∈ bindings.entries, ∀ code ∈ entry.programs,
      code.Finite) ?_ ?_
  · intro entry member
    cases member
  · intro file source program signatures config statement before after parsed
      member effect finite
    refine effect.programs Code.Finite ?_ ?_ finite
    · exact Code.finite_push trivial
    · intro tree isStored params code compiled
      exact Compile.finite_of_emit tree
        (written_of_parse parsed member isStored).lexical
        (Compile.emit_of_expr compiled).1

/-- Where the tables are finite, everything in scope is. -/
theorem Loaded.scopesFinite
    {machine : Machine}
    (loaded : machine.Loaded)
    {extrapolation : Curve.Extrapolation}
    (tables : machine.TablesFinite extrapolation) :
    machine.scopes.Finite extrapolation := by
  refine ⟨?_, by simp [loaded.frames]⟩
  intro entry member
  exact ⟨loaded.finite entry member, tables entry member⟩

/-- The literals of an expression that is evaluated on its own are finite. -/
theorem finite_of_compile
    {machine : Machine}
    {source : String}
    {code : Code}
    (compiled : machine.compile source = .ok code) :
    code.Finite := by
  obtain ⟨tokens, scanned, rest⟩ := except_bind_eq_ok.mp compiled
  obtain ⟨parsed, parses, last⟩ := except_bind_eq_ok.mp rest
  obtain ⟨⟨tree, cursor⟩, reads, ends⟩ :=
    except_bind_eq_ok.mp (except_mapError_eq_ok.mp parses)
  have produced : Parse.Produces tree :=
    ⟨source, tokens, _, _, cursor, except_mapError_eq_ok.mp scanned,
      List.suffix_rfl, reads⟩
  obtain rfl : tree = parsed := by
    dsimp only at ends
    split at ends
    · cases ends
      rfl
    · exact (Cursor.not_unexpected ends).elim
  exact Compile.finite_of_emit tree produced.written.lexical
    (Compile.emit_of_expr (except_mapError_eq_ok.mp last)).1

end Machine

end Formulary
