import Formulary.Entry.Printing
import Formulary.Proofs.Compile.Balanced
import Formulary.Proofs.Compile.Formula
import Formulary.Proofs.Eval.Confined
import Formulary.Proofs.Source.Declarations

namespace Formulary

open Grammar Token

/-!
# Declarations that read back

An entry is written as the declaration it came from, with the programs it has
now.  When its programs are compiled from expressions of source text, the
declaration is read as a statement that gives the entry again, each program as
it is read back from its formula.
-/

/-- A definition with its programs as they are read back. -/
def Definition.reread : Definition → Definition
  | .scalar code => .scalar code.reread
  | .array grid => .array ⟨grid.dims, grid.elements.map Code.reread⟩
  | .function params body => .function params body.reread
  | .curve table => .curve table

namespace Entry

/-- An entry as it is read back from its declaration. -/
def reread (entry : Entry) : Entry :=
  ⟨entry.name, entry.definition.reread⟩

@[simp]
theorem name_reread (entry : Entry) : entry.reread.name = entry.name :=
  rfl

@[simp]
theorem signature_reread
    (entry : Entry) :
    entry.reread.signature = entry.signature := by
  obtain ⟨name, definition⟩ := entry
  cases definition <;> rfl

end Entry

/-- A list is unchanged when each of its members is. -/
theorem map_eq_self_iff
    {change : α → α}
    {items : List α} :
    items.map change = items ↔ ∀ item ∈ items, change item = item := by
  have pointwise := @List.map_inj_left α α items change id
  simpa using pointwise

/-- The entries that are read back as they are. -/
theorem Entry.reread_eq_self_iff (entry : Entry) :
    entry.reread = entry ↔ ∀ code ∈ entry.programs, code.reread = code := by
  obtain ⟨name, definition⟩ := entry
  cases definition with
  | scalar code => simp [reread, Definition.reread, programs]
  | function params body => simp [reread, Definition.reread, programs]
  | curve table => simp [reread, Definition.reread, programs]
  | array grid =>
      obtain ⟨dims, ⟨elements⟩⟩ := grid
      simp [reread, Definition.reread, programs, map_eq_self_iff]

/-- A program compiled from an expression of source text. -/
def Compile.Stored
    (signatures : Signatures)
    (params : List String)
    (code : Code) :
    Prop :=
  ∃ tree : Expr, tree.Lexical ∧ Compile.expr signatures params tree = .ok code

/-- What a definition must satisfy to be declared again. -/
def Definition.Declarable (signatures : Signatures) : Definition → Prop
  | .scalar code => Compile.Stored signatures [] code
  | .array grid =>
      (grid.dims ≠ [] ∧ ∀ size ∈ grid.dims, size < 2 ^ 63) ∧
        grid.elements.toList ≠ [] ∧
          ∀ code ∈ grid.elements.toList, Compile.Stored signatures [] code
  | .function params body =>
      (params ≠ [] ∧ ∀ param ∈ params, Lexeme.IsName param) ∧
        Compile.Stored signatures params body
  | .curve table =>
      table.points ≠ [] ∧ ∀ point ∈ table.points,
        point.x.isFinite ∧ point.y.isFinite

/-- An entry that can be declared again. -/
structure Entry.Declarable
    (signatures : Signatures)
    (entry : Entry) :
    Prop where
  named : Lexeme.IsName entry.name
  defined : entry.definition.Declarable signatures

/-- Two expressions that compile to the coordinates of a point. -/
def Places
    (signatures : Signatures)
    (point : Point)
    (pair : Expr × Expr) :
    Prop :=
  Compile.expr signatures [] pair.1 = .ok (Code.push (.double point.x)) ∧
    Compile.expr signatures [] pair.2 = .ok (Code.push (.double point.y))

/-- An expression that compiles to a size. -/
def Sizes (signatures : Signatures) (size : Nat) (tree : Expr) : Prop :=
  Compile.expr signatures [] tree = .ok (Code.push (.int (Int64.ofNat size)))

/--
A statement whose expressions compile to the programs, sizes and points of an
entry.
-/
inductive Restates (signatures : Signatures) : Entry → Action → Prop where
  | scalar
      {name : String}
      {value : Expr}
      {code : Code}
      (compiled : Compile.expr signatures [] value = .ok code) :
      Restates signatures ⟨name, .scalar code⟩ (.scalar name value)
  | function
      {name : String}
      {params : List String}
      {body : Expr}
      {code : Code}
      (compiled : Compile.expr signatures params body = .ok code) :
      Restates signatures ⟨name, .function params code⟩
        (.function name params body)
  | array
      {name : String}
      {dims : List Nat}
      {sizes elements : List Expr}
      {programs : List Code}
      (sized : List.Forall₂ (Sizes signatures) dims sizes)
      (compiled :
        List.Forall₂
          (fun element code => Compile.expr signatures [] element = .ok code)
          elements programs) :
      Restates signatures ⟨name, .array ⟨dims, programs.toArray⟩⟩
        (.array name (some sizes) elements)
  | curve
      {name : String}
      {points : List Point}
      {pairs : List (Expr × Expr)}
      (placed : List.Forall₂ (Places signatures) points pairs) :
      Restates signatures ⟨name, .curve ⟨points⟩⟩ (.curve name pairs)

namespace Compile

variable
  {signatures : Signatures}
  {params : List String}

/-- A tree that restores a program compiles to it. -/
theorem Restores.compiled
    {code : Code}
    {tree : Expr}
    (restores : Restores signatures params code tree) :
    expr signatures params tree = .ok code.reread :=
  expr_eq_ok_iff.mpr restores.emitted

/-- A tree that restores a literal compiles to it. -/
theorem Restores.compiled_push
    {value : Value}
    {tree : Expr}
    (restores : Restores signatures params (Code.push value) tree) :
    expr signatures params tree = .ok (Code.push value) := by
  rw [restores.compiled, Code.reread_push]

/-- The formula of a stored program reads back as an expression of it. -/
theorem Stored.formula
    (ranked : ∀ name, signatures.get? name ≠ some (.array 0))
    {code : Code}
    (stored : Stored signatures params code) :
    FormulaOf signatures params .expression
      (Code.formula code).toList code := by
  obtain ⟨tree, lexical, compiled⟩ := stored
  exact formula_of_emit ranked lexical (emit_of_expr compiled).1

/-- The text of a finite double reads back. -/
theorem formula_double
    {x : Double}
    (finite : x.isFinite = true) :
    FormulaOf signatures params .expression (NumberLayout.marked.write x).toList
      (Code.push (.double x)) := by
  have absFinite : x.abs.isFinite = true := by
    rw [Double.isFinite, Double.magnitude_abs]
    exact finite
  have absLexical : (Token.literal (.double x.abs)).Lexical :=
    ⟨absFinite, x.isNegative_abs⟩
  cases sign : x.isNegative with
  | false =>
      rw [Double.abs_of_not_isNegative sign] at absLexical
      exact (phrased_literal absLexical).reads.asExpression
  | true =>
      have folds :
          negatedLiteral? (.literal Position.start (.double x.abs)) =
            some (.double x) := by
        rw [negatedLiteral?, Double.neg_abs_of_isNegative sign]
      exact
        (phrased_negatedLiteral absLexical folds (by simp)).reads.asExpression

/-- The text of a size reads back. -/
theorem formula_size
    {size : Nat}
    (small : size < 2 ^ 63) :
    FormulaOf signatures params .expression (toString size).toList
      (Code.push (.int (Int64.ofNat size))) := by
  have value : (Int64.ofNat size).toInt = size := Int64.toInt_ofNat_of_lt small
  have lexical : (Token.literal (.int (Int64.ofNat size))).Lexical := by
    rw [Token.Lexical, value]
    exact Int.natCast_nonneg size
  have text : toString size = (Value.int (Int64.ofNat size)).literal := by
    rw [Value.literal, Value.writeWith, value]
    rfl
  rw [text]
  exact (phrased_literal lexical).reads.asExpression

end Compile

/-! The text of a declaration, read as a single statement. -/

namespace Grammar

/-- A statement with its semicolon that is read. -/
def Declaration (tokens : Tokens) (action : Action) : Prop :=
  ∃ (name : String) (position semicolon : Position) (rest : Tokens),
    tokens = ⟨position, .name name⟩ :: rest ++ [⟨semicolon, .mark .semicolon⟩] ∧
      IsRead (⟨position, .name name⟩ :: rest) action

theorem spells_equals : Spells Anything " = ".toList [.mark .assign] := by
  have spellsSign : Spells Anything (['='] ++ [' ']) ([.mark .assign] ++ []) :=
    Lexeme.spells_assign.append spells_blank fun _ _ => rfl
  exact spells_blank.append spellsSign fun _ _ => trivial

/-- The end of a list and of a statement. -/
theorem spells_closed
    (mark : Mark)
    (single : mark ≠ .assign) :
    Spells Delimited ([Lexeme.markChar mark] ++ [';'])
      [.mark mark, .mark .semicolon] :=
  (Lexeme.spells_mark mark single).append
    ((Lexeme.spells_mark .semicolon (by decide)).weaken fun _ _ => trivial)
    fun _ _ => trivial

/-- A name on its own. -/
def OneName (tokens : Tokens) (name : String) : Prop :=
  ∃ position, tokens = [⟨position, .name name⟩]

/-- Parameters with commas between them. -/
theorem readsAs_params
    {params : List String}
    (given : params ≠ [])
    (areNames : ∀ param ∈ params, Lexeme.IsName param) :
    ReadsAs Params (", ".intercalate params).toList (params = ·) := by
  have each :
      List.Forall₂
        (fun (text : String) param => ReadsAs OneName text.toList (param = ·))
        params params := by
    refine List.forall₂_same.mpr fun param member => ?_
    refine ⟨[.name param], Lexeme.spells_name (areNames param member), ?_⟩
    intro located items
    exact ⟨param, exists_of_map_item_singleton items, rfl⟩
  have reads :
      ReadsAs Params (", ".intercalate params).toList
        (List.Forall₂ (· = ·) params) := by
    refine readsAs_intercalate spells_comma
      (fun rest => delimited_cons (by decide) _) ?_ ?_ each given
    · rintro tokens name ⟨position, rfl⟩
      exact .last
    · rintro tokens middle rest name others ⟨position, rfl⟩ items derives
      obtain ⟨comma, rfl⟩ := exists_of_map_item_singleton items
      exact .more derives
  refine reads.imp fun tokens names derives same => ⟨names, derives, ?_⟩
  simpa [List.forall₂_eq_eq_eq] using same

/--
Initializers with commas between them, in front of the bracket that closes them.
-/
def Initializers (tokens : Tokens) (items : List Expr) : Prop :=
  ∀ closing,
    Elements .closeBracket (tokens ++ [⟨closing, .mark .closeBracket⟩]) items

theorem readsAs_initializers
    {signatures : Signatures}
    {codes : List Code}
    (formulas :
      ∀ code ∈ codes,
        FormulaOf signatures [] .expression (Code.formula code).toList code)
    (given : codes ≠ []) :
    ReadsAs Initializers (", ".intercalate (codes.map Code.formula)).toList
      (List.Forall₂ (Compile.Restores signatures []) codes) := by
  have each :
      List.Forall₂
        (fun (text : String) code =>
          FormulaOf signatures [] .expression text.toList code)
        (codes.map Code.formula) codes := by
    rw [List.forall₂_map_left_iff]
    exact List.forall₂_same.mpr formulas
  refine readsAs_intercalate spells_comma
    (fun rest => delimited_cons (by decide) _) ?_ ?_ each (by simpa using given)
  · intro tokens tree derives closing
    exact .last derives
  · intro tokens middle rest tree others derives items restDerives closing
    obtain ⟨comma, rfl⟩ := exists_of_map_item_singleton items
    have elements : Elements .closeBracket
        (tokens ++
          ⟨comma, .mark .comma⟩ :: (rest ++ [⟨closing, .mark .closeBracket⟩]))
        (tree :: others) :=
      .more derives (restDerives closing)
    simpa using elements

theorem readsAs_point
    (signatures : Signatures)
    {point : Point}
    (finite : point.x.isFinite ∧ point.y.isFinite) :
    ReadsAs OnePoint (Entry.pointText point).toList
      (Places signatures point) := by
  obtain ⟨xTokens, spellsX, readsX⟩ :
      FormulaOf signatures [] .expression _ _ := Compile.formula_double finite.1
  obtain ⟨yTokens, spellsY, readsY⟩ :
      FormulaOf signatures [] .expression _ _ := Compile.formula_double finite.2
  have spellsAll :
      Spells Delimited (Entry.pointText point).toList
        (.mark .openParen ::
          (xTokens ++ (.mark .comma :: (yTokens ++ [.mark .closeParen])))) := by
    simp only [Entry.pointText, String.toList_append, List.append_assoc]
    refine (Lexeme.spells_mark .openParen (by decide)).append ?_
      fun _ _ => trivial
    refine spellsX.append ?_ (fits_cons (by decide) _)
    refine spells_comma.append ?_ fun _ _ => trivial
    exact spellsY.append
      ((Lexeme.spells_mark .closeParen (by decide)).weaken fun _ _ => trivial)
      (fits_cons (by decide) _)
  refine ⟨_, spellsAll, ?_⟩
  intro located items
  obtain ⟨opening, afterOpening, rfl, afterOpeningItems⟩ :=
    exists_of_map_item_cons items
  obtain ⟨before, afterX, rfl, beforeItems, afterXItems⟩ :=
    List.map_eq_append_iff.mp afterOpeningItems
  obtain ⟨comma, afterComma, rfl, afterCommaItems⟩ :=
    exists_of_map_item_cons afterXItems
  obtain ⟨after, closed, rfl, afterItems, closedItems⟩ :=
    List.map_eq_append_iff.mp afterCommaItems
  obtain ⟨closing, rfl⟩ := exists_of_map_item_singleton closedItems
  obtain ⟨x, xDerives, xRestores⟩ := readsX before beforeItems
  obtain ⟨y, yDerives, yRestores⟩ := readsY after afterItems
  refine ⟨(x, y), ?_, xRestores.compiled_push, yRestores.compiled_push⟩
  have point : OnePoint
      (⟨opening, .mark .openParen⟩ :: before ++ ⟨comma, .mark .comma⟩ :: after
        ++ [⟨closing, .mark .closeParen⟩]) (x, y) :=
    .point xDerives yDerives
  simpa using point

/-- Points with blanks between them, in front of the brace that closes them. -/
def Breakpoints (tokens : Tokens) (pairs : List (Expr × Expr)) : Prop :=
  ∀ closing, Points (tokens ++ [⟨closing, .mark .closeBrace⟩]) pairs

theorem readsAs_breakpoints
    (signatures : Signatures)
    {points : List Point}
    (finite : ∀ point ∈ points, point.x.isFinite ∧ point.y.isFinite)
    (given : points ≠ []) :
    ReadsAs Breakpoints (" ".intercalate (points.map Entry.pointText)).toList
      (List.Forall₂ (Places signatures) points) := by
  have each :
      List.Forall₂
        (fun (text : String) point =>
          ReadsAs OnePoint text.toList (Places signatures point))
        (points.map Entry.pointText) points := by
    rw [List.forall₂_map_left_iff]
    exact List.forall₂_same.mpr fun point member =>
      readsAs_point signatures (finite point member)
  have spellsSeparator : Spells Anything " ".toList [] := spells_blank
  refine readsAs_intercalate spellsSeparator
    (fun rest => delimited_cons (by decide) _) ?_ ?_ each (by simpa using given)
  · intro tokens pair derives closing
    have points :
        Points (tokens ++ [] ++ [⟨closing, .mark .closeBrace⟩]) [pair] :=
      .last derives .absent
    simpa using points
  · intro tokens middle rest pair others derives items restDerives closing
    obtain rfl := List.map_eq_nil_iff.mp items
    have points :
        Points (tokens ++ [] ++ (rest ++ [⟨closing, .mark .closeBrace⟩]))
        (pair :: others) :=
      .more derives .absent (restDerives closing)
    simpa using points

end Grammar

namespace Entry

/-- The sizes of an array, each in brackets. -/
theorem readsAs_sizes
    (signatures : Signatures)
    {dims : List Nat}
    (given : dims ≠ [])
    (small : ∀ size ∈ dims, size < 2 ^ 63) :
    ReadsAs (Derives .subscripts) (subscripts dims).toList
      (List.Forall₂ (Sizes signatures) dims) := by
  have formulas :
      List.Forall₂
        (fun (text : String) code =>
          FormulaOf signatures [] .expression text.toList code)
        (dims.map toString)
        (dims.map fun size => Code.push (.int (Int64.ofNat size))) := by
    rw [List.forall₂_map_left_iff, List.forall₂_map_right_iff]
    exact List.forall₂_same.mpr fun size member =>
      Compile.formula_size (small size member)
  have written :
      subscripts dims = String.join ((dims.map toString).map fun text =>
        "[" ++ text ++ "]") := by
    rw [subscripts, List.map_map]
    rfl
  rw [written]
  have reads := readsAs_subscripts formulas (by simpa using given)
  refine reads.imp fun tokens trees derives same => ?_
  rw [List.forall₂_map_left_iff] at same
  exact ⟨trees, derives, same.imp fun size tree restores =>
    restores.compiled_push⟩

/-- The sizes of an array start with a bracket. -/
theorem toList_subscripts
    {dims : List Nat}
    (given : dims ≠ []) :
    ∃ rest, (subscripts dims).toList = '[' :: rest := by
  obtain ⟨size, others, rfl⟩ := List.exists_cons_of_ne_nil given
  rw [subscripts, List.map_cons, String.join_cons]
  simp only [String.toList_append, List.append_assoc]
  exact ⟨_, rfl⟩

section Text

variable
  {signatures : Signatures}
  {name : String}
  (isName : Lexeme.IsName name)
include isName

/-- A name bound to an expression. -/
theorem readsAs_binding
    {text : String}
    {holds : Expr → Prop}
    (expression : ReadsAs (Single .expression) text.toList holds) :
    ReadsAs Declaration (name ++ " = " ++ text ++ ";").toList
      (fun action => ∃ tree, action = .scalar name tree ∧ holds tree) := by
  obtain ⟨tokens, spells, reads⟩ := expression
  have spellsAll :
      Spells Delimited (name ++ " = " ++ text ++ ";").toList
        (.name name :: .mark .assign :: (tokens ++ [.mark .semicolon])) := by
    simp only [String.toList_append, List.append_assoc]
    refine (Lexeme.spells_name isName).append ?_ (fits_cons (by decide) _)
    refine spells_equals.append ?_ fun _ _ => trivial
    exact spells.append
      ((Lexeme.spells_mark .semicolon (by decide)).weaken fun _ _ => trivial)
      (fits_cons (by decide) _)
  refine ⟨_, spellsAll, ?_⟩
  intro located items
  obtain ⟨position, afterName, rfl, afterNameItems⟩ :=
    exists_of_map_item_cons items
  obtain ⟨equals, afterEquals, rfl, afterEqualsItems⟩ :=
    exists_of_map_item_cons afterNameItems
  obtain ⟨inside, ended, rfl, insideItems, endedItems⟩ :=
    List.map_eq_append_iff.mp afterEqualsItems
  obtain ⟨semicolon, rfl⟩ := exists_of_map_item_singleton endedItems
  obtain ⟨tree, derives, isHeld⟩ := reads inside insideItems
  exact ⟨.scalar name tree,
    ⟨name, position, semicolon, _, rfl, isRead_scalar derives⟩, tree, rfl,
    isHeld⟩

theorem readsAs_scalar
    (ranked : ∀ name, signatures.get? name ≠ some (.array 0))
    {code : Code}
    (stored : Compile.Stored signatures [] code) :
    ReadsAs Declaration (Entry.mk name (.scalar code)).declaration.toList
      (Restates signatures ⟨name, .scalar code.reread⟩) := by
  refine (readsAs_binding isName (stored.formula ranked)).imp
    fun tokens action declares read => ?_
  obtain ⟨tree, rfl, restores⟩ := read
  exact ⟨.scalar name tree, declares, .scalar restores.compiled⟩

theorem readsAs_function
    (ranked : ∀ name, signatures.get? name ≠ some (.array 0))
    {params : List String}
    (given : params ≠ [])
    (areNames : ∀ param ∈ params, Lexeme.IsName param)
    {code : Code}
    (stored : Compile.Stored signatures params code) :
    ReadsAs Declaration
      (Entry.mk name (.function params code)).declaration.toList
      (Restates signatures ⟨name, .function params code.reread⟩) := by
  obtain ⟨paramTokens, spellsParams, readsParams⟩ :=
    readsAs_params given areNames
  obtain ⟨tokens, spells, reads⟩ := stored.formula ranked
  have spellsAll :
      Spells Delimited
        (Entry.mk name (.function params code)).declaration.toList
        (.name name :: .mark .openParen :: (paramTokens ++
          (.mark .closeParen :: .mark .assign ::
            (tokens ++ [.mark .semicolon])))) := by
    have spellsHead :
        Spells Anything ") = ".toList [.mark .closeParen, .mark .assign] :=
      (Lexeme.spells_mark .closeParen (by decide)).append spells_equals
        fun _ _ => trivial
    simp only [declaration, String.toList_append, List.append_assoc]
    refine (Lexeme.spells_name isName).append ?_ (fits_cons (by decide) _)
    refine (Lexeme.spells_mark .openParen (by decide)).append ?_
      fun _ _ => trivial
    refine spellsParams.append ?_ (fits_cons (by decide) _)
    refine spellsHead.append ?_ fun _ _ => trivial
    exact spells.append
      ((Lexeme.spells_mark .semicolon (by decide)).weaken fun _ _ => trivial)
      (fits_cons (by decide) _)
  refine ⟨_, spellsAll, ?_⟩
  intro located items
  obtain ⟨position, afterName, rfl, afterNameItems⟩ :=
    exists_of_map_item_cons items
  obtain ⟨opening, afterOpening, rfl, afterOpeningItems⟩ :=
    exists_of_map_item_cons afterNameItems
  obtain ⟨before, afterParams, rfl, beforeItems, afterParamsItems⟩ :=
    List.map_eq_append_iff.mp afterOpeningItems
  obtain ⟨closing, afterClosing, rfl, afterClosingItems⟩ :=
    exists_of_map_item_cons afterParamsItems
  obtain ⟨equals, afterEquals, rfl, afterEqualsItems⟩ :=
    exists_of_map_item_cons afterClosingItems
  obtain ⟨inside, ended, rfl, insideItems, endedItems⟩ :=
    List.map_eq_append_iff.mp afterEqualsItems
  obtain ⟨semicolon, rfl⟩ := exists_of_map_item_singleton endedItems
  obtain ⟨names, paramsDerive, rfl⟩ := readsParams before beforeItems
  obtain ⟨tree, derives, restores⟩ := reads inside insideItems
  exact ⟨.function name params tree,
    ⟨name, position, semicolon,
      ⟨opening, .mark .openParen⟩ :: before
        ++ ⟨closing, .mark .closeParen⟩ :: ⟨equals, .mark .assign⟩ :: inside,
      by simp, isRead_function paramsDerive derives⟩,
    .function restores.compiled⟩

theorem readsAs_array
    (ranked : ∀ name, signatures.get? name ≠ some (.array 0))
    {grid : Grid}
    (dimsGiven : grid.dims ≠ [])
    (small : ∀ size ∈ grid.dims, size < 2 ^ 63)
    (given : grid.elements.toList ≠ [])
    (stored :
      ∀ code ∈ grid.elements.toList, Compile.Stored signatures [] code) :
    ReadsAs Declaration (Entry.mk name (.array grid)).declaration.toList
      (Restates signatures
        ⟨name, .array ⟨grid.dims, grid.elements.map Code.reread⟩⟩) := by
  obtain ⟨sizeTokens, spellsSizes, readsSizes⟩ :=
    readsAs_sizes signatures dimsGiven small
  obtain ⟨tokens, spells, reads⟩ :=
    readsAs_initializers
      (fun code member => (stored code member).formula ranked) given
  obtain ⟨more, opened⟩ := toList_subscripts dimsGiven
  have spellsAll :
      Spells Delimited (Entry.mk name (.array grid)).declaration.toList
        (.name name :: (sizeTokens ++ (.mark .assign :: .mark .openBracket ::
          (tokens ++ [.mark .closeBracket, .mark .semicolon])))) := by
    have spellsHead :
        Spells Anything " = [".toList [.mark .assign, .mark .openBracket] :=
      spells_equals.append (Lexeme.spells_mark .openBracket (by decide))
        fun _ _ => trivial
    simp only [declaration, String.toList_append, List.append_assoc]
    refine (Lexeme.spells_name isName).append ?_
      (by rw [opened]; exact fits_cons (by decide) _)
    refine spellsSizes.append ?_ (fits_cons (by decide) _)
    refine spellsHead.append ?_ fun _ _ => trivial
    exact spells.append (spells_closed .closeBracket (by decide))
      (fits_cons (by decide) _)
  refine ⟨_, spellsAll, ?_⟩
  intro located items
  obtain ⟨position, afterName, rfl, afterNameItems⟩ :=
    exists_of_map_item_cons items
  obtain ⟨before, afterSizes, rfl, beforeItems, afterSizesItems⟩ :=
    List.map_eq_append_iff.mp afterNameItems
  obtain ⟨equals, afterEquals, rfl, afterEqualsItems⟩ :=
    exists_of_map_item_cons afterSizesItems
  obtain ⟨opening, afterOpening, rfl, afterOpeningItems⟩ :=
    exists_of_map_item_cons afterEqualsItems
  obtain ⟨inside, ended, rfl, insideItems, endedItems⟩ :=
    List.map_eq_append_iff.mp afterOpeningItems
  obtain ⟨closing, afterClosing, rfl, afterClosingItems⟩ :=
    exists_of_map_item_cons endedItems
  obtain ⟨semicolon, rfl⟩ := exists_of_map_item_singleton afterClosingItems
  obtain ⟨sizeTrees, sizesDerive, sized⟩ := readsSizes before beforeItems
  obtain ⟨trees, derives, restore⟩ := reads inside insideItems
  have isRead :
      IsRead
        (⟨position, .name name⟩ :: before ++ ⟨equals, .mark .assign⟩
          :: ⟨opening, .mark .openBracket⟩ ::
            (inside ++ [⟨closing, .mark .closeBracket⟩]))
        (.array name (some sizeTrees) trees) :=
    isRead_array sizesDerive (derives closing)
  refine ⟨.array name (some sizeTrees) trees,
    ⟨name, position, semicolon, _, ?_, isRead⟩, ?_⟩
  · simp
  have compiled :
      List.Forall₂ (fun element code =>
        Compile.expr signatures [] element = .ok code) trees
        (grid.elements.toList.map Code.reread) := by
    rw [List.forall₂_map_right_iff]
    exact (restore.imp fun code tree restores => restores.compiled).flip
  have elements :
      grid.elements.map Code.reread =
        (grid.elements.toList.map Code.reread).toArray := by
    rw [← Array.toList_map, Array.toArray_toList]
  rw [elements]
  exact .array sized compiled

theorem readsAs_curve
    {curve : Curve}
    (given : curve.points ≠ [])
    (finite : ∀ point ∈ curve.points, point.x.isFinite ∧ point.y.isFinite) :
    ReadsAs Declaration (Entry.mk name (.curve curve)).declaration.toList
      (Restates signatures ⟨name, .curve curve⟩) := by
  obtain ⟨tokens, spells, reads⟩ := readsAs_breakpoints signatures finite given
  have spellsAll :
      Spells Delimited (Entry.mk name (.curve curve)).declaration.toList
        (.name name :: .mark .assign :: .mark .openBrace ::
          (tokens ++ [.mark .closeBrace, .mark .semicolon])) := by
    have spellsHead :
        Spells Anything " = \x7b".toList [.mark .assign, .mark .openBrace] :=
      spells_equals.append (Lexeme.spells_mark .openBrace (by decide))
        fun _ _ => trivial
    simp only [declaration, String.toList_append, List.append_assoc]
    refine (Lexeme.spells_name isName).append ?_ (fits_cons (by decide) _)
    refine spellsHead.append ?_ fun _ _ => trivial
    exact spells.append (spells_closed .closeBrace (by decide))
      (fits_cons (by decide) _)
  refine ⟨_, spellsAll, ?_⟩
  intro located items
  obtain ⟨position, afterName, rfl, afterNameItems⟩ :=
    exists_of_map_item_cons items
  obtain ⟨equals, afterEquals, rfl, afterEqualsItems⟩ :=
    exists_of_map_item_cons afterNameItems
  obtain ⟨opening, afterOpening, rfl, afterOpeningItems⟩ :=
    exists_of_map_item_cons afterEqualsItems
  obtain ⟨inside, ended, rfl, insideItems, endedItems⟩ :=
    List.map_eq_append_iff.mp afterOpeningItems
  obtain ⟨closing, afterClosing, rfl, afterClosingItems⟩ :=
    exists_of_map_item_cons endedItems
  obtain ⟨semicolon, rfl⟩ := exists_of_map_item_singleton afterClosingItems
  obtain ⟨pairs, derives, placed⟩ := reads inside insideItems
  exact ⟨.curve name pairs,
    ⟨name, position, semicolon,
      ⟨equals, .mark .assign⟩ :: ⟨opening, .mark .openBrace⟩
        :: (inside ++ [⟨closing, .mark .closeBrace⟩]),
      by simp, isRead_curve (derives closing)⟩,
    .curve placed⟩

end Text

/-- The declaration of an entry gives the entry, as it is read back. -/
theorem Declarable.readsAs
    {signatures : Signatures}
    (ranked : ∀ name, signatures.get? name ≠ some (.array 0))
    {entry : Entry}
    (declarable : entry.Declarable signatures) :
    ReadsAs Declaration entry.declaration.toList
      (Restates signatures entry.reread) := by
  obtain ⟨name, definition⟩ := entry
  obtain ⟨isName, defined⟩ := declarable
  cases definition with
  | scalar code => exact readsAs_scalar isName ranked defined
  | array grid =>
      obtain ⟨⟨dimsGiven, small⟩, given, stored⟩ := defined
      exact readsAs_array isName ranked dimsGiven small given stored
  | function params body =>
      obtain ⟨⟨given, areNames⟩, stored⟩ := defined
      exact readsAs_function isName ranked given areNames stored
  | curve table =>
      obtain ⟨given, finite⟩ := defined
      exact readsAs_curve isName given finite

/-- Declarations up to the end of the text. -/
def Declarations (tokens : Tokens) (actions : List Action) : Prop :=
  ∀ position, AllRead (tokens ++ [⟨position, .eof⟩]) actions

/-- Declarations on lines of their own are read one after the other. -/
theorem readsAs_lines
    {signatures : Signatures}
    (ranked : ∀ name, signatures.get? name ≠ some (.array 0))
    {entries : List Entry}
    (declarable : ∀ entry ∈ entries, entry.Declarable signatures) :
    ReadsAs Declarations (Text.unlines (entries.map declaration)).toList
      (List.Forall₂ (Restates signatures) (entries.map reread)) := by
  induction entries with
  | nil =>
      refine ⟨[], .nil, ?_⟩
      intro located items
      obtain rfl := List.map_eq_nil_iff.mp items
      exact ⟨[], fun position => .done, .nil⟩
  | cons entry rest inductionHypothesis =>
      obtain ⟨tokens, spells, reads⟩ :=
        (declarable entry List.mem_cons_self).readsAs ranked
      obtain ⟨moreTokens, spellsMore, readsMore⟩ :=
        inductionHypothesis fun other member =>
          declarable other (List.mem_cons_of_mem entry member)
      have spellsBreak : Spells Anything "\n".toList [] :=
        Spells.blank (by decide)
      have spellsRest := spellsBreak.append spellsMore fun _ _ => trivial
      have written :
          (Text.unlines ((entry :: rest).map declaration)).toList =
            entry.declaration.toList ++
              ("\n".toList ++
              (Text.unlines (rest.map declaration)).toList) := by
        simp only [Text.unlines, List.map_cons, String.join_cons,
          String.toList_append, List.append_assoc]
      rw [written]
      refine ⟨_, spells.append spellsRest (fits_cons (by decide) _), ?_⟩
      intro located items
      obtain ⟨before, after, rfl, beforeItems, afterItems⟩ :=
        List.map_eq_append_iff.mp items
      obtain ⟨action, ⟨name, position, semicolon, others, rfl, isRead⟩,
          restates⟩ :=
        reads before beforeItems
      obtain ⟨actions, allRead, moreRestate⟩ := readsMore after afterItems
      refine ⟨action :: actions, ?_, .cons restates moreRestate⟩
      intro ending
      have all : AllRead
          (⟨position, .name name⟩ :: others ++ ⟨semicolon, .mark .semicolon⟩
            :: (after ++ [⟨ending, .eof⟩])) (action :: actions) :=
        .next isRead (allRead ending)
      simpa using all

end Entry

end Formulary
