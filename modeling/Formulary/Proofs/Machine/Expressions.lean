import Formulary.Proofs.Compile.Writable
import Formulary.Proofs.Machine.Discipline
import Formulary.Proofs.Machine.ReadBack
import Formulary.Proofs.Machine.Resolution
import Formulary.Proofs.Source.Recognition

namespace Formulary

open Grammar Stateful

/-!
# Expressions that apply an entry

The expression that names a scalar, indexes an array or calls a function, with
literals for its operands, compiles on a loaded machine to a program that pushes
these operands and then refers to the entry.
-/

/-- The expression that indexes an array. -/
def Entry.elementText (name : String) (indices : List Int64) : String :=
  name ++ String.join (indices.map fun index =>
    "[" ++ toString index.toInt ++ "]")

/-- The expression that calls a function or a table. -/
def Entry.callText (name : String) (arguments : List Value) : String :=
  name ++ "(" ++ ", ".intercalate (arguments.map Value.literal) ++ ")"

/-- The names of built-in functions are names. -/
theorem Builtin.isName (builtin : Builtin) : Lexeme.IsName builtin.name := by
  cases builtin <;>
    exact ⟨⟨_, _, rfl, by decide, List.all_eq_true.mp rfl⟩, by decide⟩

namespace Code

/-- Literals and a cell that does not negate are read back as they are. -/
theorem reread_literals
    (values : List Value)
    {cell : Cell}
    (notNegate : cell ≠ .op .negate) :
    Code.reread (Eval.literals values ++ [cell]) =
      Eval.literals values ++ [cell] := by
  rw [reread_concat _ notNegate]
  congr 1
  induction values with
  | nil => rfl
  | cons value others inductionHypothesis =>
      have fresh : Code.StartsFresh (Eval.literals others) := by
        cases others <;> simp [StartsFresh]
      rw [Eval.literals_cons, ← List.singleton_append, reread_append _ fresh,
        inductionHypothesis]
      rfl

end Code

namespace Machine

/-- The signature that expressions are compiled against is that of the entry. -/
theorem WellFormed.signature
    {machine : Machine}
    (wellFormed : machine.WellFormed)
    {entry : Entry}
    (member : entry ∈ machine.entries) :
    (Signatures.ofEntries machine.entries).get? entry.name =
      some entry.signature := by
  have described := Signatures.Describe.ofEntries wellFormed.distinct entry.name
  rw [Bindings.get?_of_mem wellFormed.distinct member] at described
  exact described

/-- A text that is read as an expression of a program compiles to it. -/
theorem compile_of_formula
    {machine : Machine}
    {text : String}
    {code : Code}
    (formula :
      FormulaOf (Signatures.ofEntries machine.entries) [] .expression
        text.toList code) :
    machine.compile text = .ok code.reread := by
  obtain ⟨located, ending, tree, scanned, visible, derives, restores⟩ :=
    scan_of_readsAs formula
  have parsed : Parse.standalone (located ++ [⟨ending, .eof⟩]) = .ok tree := by
    obtain ⟨phrase, rfl, rfl⟩ := Derivation.exists_expression derives
    refine parse_standalone ⟨phrase, none, ending, []⟩ ?_
    rw [Token.clean, List.filter_eq_self.mpr fun token member => by
      simp [visible token member]]
    simp [Derivation.Standalone.tokens, Derivation.optional]
  rw [compile, scanned]
  simp only [Except.mapError, except_bind_ok, parsed, restores.compiled]

section Literals

variable
  {signatures : Signatures}
  {params : List String}

/-- Writable values are written as expressions of programs that push them. -/
theorem formulas_of_writable
    {values : List Value}
    (writable : ∀ value ∈ values, value.Writable) :
    List.Forall₂
      (fun (text : String) code =>
        FormulaOf signatures params .expression text.toList code)
      (values.map Value.literal) (values.map Code.push) := by
  rw [List.forall₂_map_left_iff, List.forall₂_map_right_iff]
  exact List.forall₂_same.mpr fun value member =>
    Compile.formula_writable (writable value member)

theorem flatten_push (values : List Value) :
    (values.map Code.push).flatten = Eval.literals values := by
  induction values with
  | nil => rfl
  | cons value others inductionHypothesis =>
      exact congrArg (Cell.literal value :: ·) inductionHypothesis

theorem startsFresh_pushes (values : List Value) :
    ∀ code ∈ values.map Code.push, code.StartsFresh := by
  intro code member
  obtain ⟨value, -, rfl⟩ := List.mem_map.mp member
  exact Compile.startsFresh_push value

/-- A called name is not the negation, whatever it stands for. -/
theorem ne_negate_of_callCell
    {name : String}
    {count : Nat}
    {cell : Cell}
    (resolved : Compile.callCell signatures params name count = .ok cell) :
    cell ≠ .op .negate := by
  rcases Compile.callCell_cases resolved with
      ⟨builtin, -, rfl, -⟩ | ⟨-, rfl, -⟩ | ⟨-, rfl, -⟩
  · cases builtin <;> decide
  · nofun
  · nofun

end Literals

section Applications

variable {machine : Machine}

/-- The name of a scalar. -/
theorem compile_name
    (loaded : machine.Loaded)
    {entry : Entry}
    (member : entry ∈ machine.entries)
    (isScalar : entry.isScalar = true) :
    machine.compile entry.name = .ok [.variable entry.name] := by
  have signature : entry.signature = .scalar := by
    obtain ⟨name, definition⟩ := entry
    cases definition <;> simp_all [Entry.isScalar, Entry.kind, Entry.signature]
  have resolved :
      Compile.valueOf (Signatures.ofEntries machine.entries) [] entry.name =
        .ok (.variable entry.name) := by
    simp [Compile.valueOf, loaded.wellFormed.signature member, signature]
  have named :
      FormulaOf (Signatures.ofEntries machine.entries) []
        Binding.primary.category entry.name.toList [.variable entry.name] :=
    formula_name (loaded.named entry member) resolved
  rw [compile_of_formula named.asExpression]
  rfl

/-- An array with literals for its indices. -/
theorem compile_elementText
    (loaded : machine.Loaded)
    {entry : Entry}
    (member : entry ∈ machine.entries)
    {grid : Grid}
    (isArray : entry.grid? = some grid)
    {indices : List Int64}
    (ranked : indices.length = grid.rank)
    (writable : ∀ index ∈ indices, index ≠ Int64.minValue) :
    machine.compile (Entry.elementText entry.name indices) =
      .ok (Eval.literals (indices.map Value.int) ++
        [.element entry.name grid.rank]) := by
  have signature : entry.signature = .array grid.rank := by
    obtain ⟨name, definition⟩ := entry
    cases definition <;> simp_all [Entry.grid?, Entry.signature]
  have declared := loaded.wellFormed.signature member
  rw [signature] at declared
  have counted :
      ((indices.map Value.int).map Code.push).length = grid.rank := by
    simpa using ranked
  have resolved :
      Compile.elementCell (Signatures.ofEntries machine.entries) [] entry.name
          ((indices.map Value.int).map Code.push).length =
        .ok (.element entry.name
          ((indices.map Value.int).map Code.push).length) := by
    rw [counted]
    simp [Compile.elementCell, Compile.rankOf, declared]
  have allWritable : ∀ value ∈ indices.map Value.int, value.Writable := by
    intro value isIndex
    obtain ⟨index, member, rfl⟩ := List.mem_map.mp isIndex
    exact writable index member
  -- An array has at least one index.
  have given : (indices.map Value.int).map Value.literal ≠ [] := by
    intro none
    have noIndex : indices = [] := by simpa using none
    rw [noIndex] at ranked
    rw [← ranked] at declared
    exact ranked_ofEntries loaded.wellFormed entry.name declared
  have text :
      Entry.elementText entry.name indices =
        entry.name ++ String.join
          (((indices.map Value.int).map Value.literal).map fun text =>
            "[" ++ text ++ "]") := by
    simp only [Entry.elementText, List.map_map]
    rfl
  have indexed :
      FormulaOf (Signatures.ofEntries machine.entries) []
        Binding.primary.category (Entry.elementText entry.name indices).toList
        (((indices.map Value.int).map Code.push).flatten ++
          [.element entry.name
            ((indices.map Value.int).map Code.push).length]) := by
    rw [text]
    exact formula_element (loaded.named entry member) resolved
      (formulas_of_writable allWritable) (startsFresh_pushes _) given
  rw [flatten_push, counted] at indexed
  have notNegate : Cell.element entry.name grid.rank ≠ .op .negate := by simp
  rw [compile_of_formula indexed.asExpression, Code.reread_literals _ notNegate]

/-- A function or a table with literals for its arguments. -/
theorem compile_callText
    {name : String}
    (isName : Lexeme.IsName name)
    {arguments : List Value}
    {cell : Cell}
    (resolved :
      Compile.callCell (Signatures.ofEntries machine.entries) [] name
        arguments.length =
        .ok cell)
    (writable : ∀ value ∈ arguments, value.Writable) :
    machine.compile (Entry.callText name arguments) =
      .ok (Eval.literals arguments ++ [cell]) := by
  have counted : (arguments.map Code.push).length = arguments.length :=
    List.length_map _
  rw [← counted] at resolved
  have called :
      FormulaOf (Signatures.ofEntries machine.entries) []
        Binding.primary.category (Entry.callText name arguments).toList
        ((arguments.map Code.push).flatten ++ [cell]) :=
    formula_call isName resolved (formulas_of_writable writable)
      (startsFresh_pushes arguments)
  rw [flatten_push] at called
  rw [compile_of_formula called.asExpression,
    Code.reread_literals arguments (ne_negate_of_callCell resolved)]

end Applications

end Machine

end Formulary
