import Formulary.Proofs.Compile.Inversion
import Formulary.Proofs.Eval.Context

namespace Formulary

open Stateful

/-!
# Programs do what their trees mean

Executing the program of a tree pushes the value that walking over the tree
gives, after the same number of steps, or fails with the same failure.  The
argument follows the tree: each node mimics its walk, given that the programs
of names do so with fewer levels left.
-/

namespace Eval

/--
An evaluation that replaces operands on the stack by the results of a walk, or
fails as the walk does.  The walk is given the number of cells below.
-/
structure Mimics
    (operands : List Value)
    (results : α → List Value)
    (action : Eval Unit)
    (walk : Nat → Walk α) : Prop where
  succeeds :
    ∀ (below : List Cell) (calls : Nat) {steps later : Nat} {a : α},
      walk below.length steps = .ok a later →
        action (above operands below steps calls) =
          .ok () (above (results a) below later calls)
  fails :
    ∀ (below : List Cell) (calls : Nat) {steps later : Nat} {failure : Failure},
      walk below.length steps = .error failure later →
        ∃ rubble, action (above operands below steps calls) =
          .error failure ⟨⟨rubble ++ below⟩, later, calls⟩

/-- The results of a walk that gives one value. -/
def single (value : Value) : List Value :=
  [value]

/-- A result that a walk can give. -/
def Gives (walk : Nat → Walk α) (a : α) : Prop :=
  ∃ depth steps later, walk depth steps = .ok a later

namespace Mimics

/-- One evaluation after another mimics one walk after another. -/
theorem andThen
    {operands : List Value}
    {between : α → List Value}
    {results : β → List Value}
    {first second : Eval Unit}
    {walk : Nat → Walk α}
    {rest : Nat → α → Walk β}
    (firstMimics : Mimics operands between first walk)
    (secondMimics :
      ∀ a, Gives walk a →
        Mimics (between a) results second (fun depth => rest depth a)) :
    Mimics operands results (first >>= fun _ => second)
      (fun depth => walk depth >>= rest depth) where
  succeeds below calls steps later b outcome := by
    obtain ⟨a, middle, walkSucceeds, restSucceeds⟩ := bind_eq_ok.mp outcome
    rw [bind_of_ok (firstMimics.succeeds below calls walkSucceeds)]
    exact (secondMimics a ⟨_, _, _, walkSucceeds⟩).succeeds below
      calls restSucceeds
  fails below calls steps later failure outcome := by
    rcases bind_eq_error.mp outcome with
        walkFails | ⟨a, middle, walkSucceeds, restFails⟩
    · obtain ⟨rubble, fails⟩ := firstMimics.fails below calls walkFails
      exact ⟨rubble, bind_of_error fails⟩
    · obtain ⟨rubble, fails⟩ :=
        (secondMimics a ⟨_, _, _, walkSucceeds⟩).fails below calls restFails
      exact ⟨rubble, by
        rw [bind_of_ok (firstMimics.succeeds below calls walkSucceeds), fails]⟩

/-- Operands below those that are replaced count as cells below. -/
theorem extend
    {operands : List Value}
    {results : α → List Value}
    {action : Eval Unit}
    {walk : Nat → Walk α}
    (mimics : Mimics operands results action walk)
    (more : List Value) :
    Mimics (operands ++ more) (fun a => results a ++ more) action
      (fun depth => walk (depth + more.length)) := by
  have deeper (below : List Cell) :
      below.length + more.length = (literals more ++ below).length := by
    rw [List.length_append, length_literals, Nat.add_comm]
  constructor
  · intro below calls steps later a outcome
    rw [deeper] at outcome
    rw [above_append, above_append, mimics.succeeds _ calls outcome]
  · intro below calls steps later failure outcome
    rw [deeper] at outcome
    obtain ⟨rubble, fails⟩ := mimics.fails _ calls outcome
    exact ⟨rubble ++ literals more,
      by rw [above_append, fails, List.append_assoc]⟩

/-- Both record the name inside which a failure arises. -/
theorem inside
    {operands : List Value}
    {results : α → List Value}
    {action : Eval Unit}
    {walk : Nat → Walk α}
    (mimics : Mimics operands results action walk)
    (name : String) :
    Mimics operands results (Eval.inside name action)
      (fun depth => Walk.inside name (walk depth)) := by
  constructor
  · intro below calls steps later a outcome
    unfold Walk.inside at outcome
    split at outcome
    · rename_i found
      cases outcome
      simp only [Eval.inside, mimics.succeeds below calls found]
    · cases outcome
  · intro below calls steps later failure outcome
    unfold Walk.inside at outcome
    split at outcome
    · cases outcome
    · rename_i found
      cases outcome
      obtain ⟨rubble, fails⟩ := mimics.fails below calls found
      exact ⟨rubble, by simp only [Eval.inside, fails]⟩

/-- Counting a program while it runs changes nothing else. -/
theorem nested
    {operands : List Value}
    {results : α → List Value}
    {action : Eval Unit}
    {walk : Nat → Walk α}
    (mimics : Mimics operands results action walk) :
    Mimics operands results (Eval.nested action) walk := by
  constructor
  · intro below calls steps later a outcome
    have started := mimics.succeeds below (calls + 1) outcome
    simp only [above] at started
    simp [Eval.nested, above, started]
  · intro below calls steps later failure outcome
    obtain ⟨rubble, fails⟩ := mimics.fails below (calls + 1) outcome
    simp only [above] at fails
    exact ⟨rubble, by simp [Eval.nested, above, fails]⟩

/-- A computation without state is the same in both. -/
theorem ofExcept
    {operands : List Value}
    {results : β → List Value}
    {rest : α → Eval Unit}
    {walk : Nat → α → Walk β}
    (result : Except Fault α)
    (mimics :
      ∀ a, result = .ok a →
        Mimics operands results (rest a) (fun depth => walk depth a)) :
    Mimics operands results (Eval.ofExcept result >>= rest)
      (fun depth => Walk.ofExcept result >>= walk depth) := by
  cases result with
  | ok a => exact mimics a rfl
  | error fault =>
      constructor
      · intro below calls steps later b outcome
        cases outcome
      · intro below calls steps later failure outcome
        cases outcome
        exact ⟨literals operands, rfl⟩

/-- The results of a walk may be put together in another way. -/
theorem map
    {operands : List Value}
    {results : α → List Value}
    {others : β → List Value}
    {action : Eval Unit}
    {walk : Nat → Walk α}
    {f : α → β}
    (mimics : Mimics operands results action walk)
    (same : ∀ a, results a = others (f a)) :
    Mimics operands others action
      (fun depth => walk depth >>= fun a => pure (f a)) := by
  constructor
  · intro below calls steps later b outcome
    obtain ⟨a, middle, walked, last⟩ := bind_eq_ok.mp outcome
    cases last
    rw [mimics.succeeds below calls walked, same]
  · intro below calls steps later failure outcome
    rcases bind_eq_error.mp outcome with walkFails | ⟨a, middle, walked, last⟩
    · exact mimics.fails below calls walkFails
    · cases last

/-- Failing in both. -/
theorem fail
    (operands : List Value)
    (results : α → List Value)
    (fault : Fault) :
    Mimics operands results (Eval.fail fault) (fun _ => Walk.fail fault) := by
  constructor
  · intro below calls steps later a outcome
    cases outcome
  · intro below calls steps later failure outcome
    cases outcome
    exact ⟨literals operands, rfl⟩

end Mimics

theorem mimics_push
    (value : Value) :
    Mimics [] single (push (.literal value)) (fun _ => pure value) := by
  constructor
  · intro below calls steps later a outcome
    cases outcome
    rfl
  · intro below calls steps later failure outcome
    cases outcome

theorem mimics_tick
    (config : Config)
    (operands : List Value) :
    Mimics operands (fun _ => operands) (tick config)
      (fun depth => Walk.count config (depth + operands.length)) := by
  have height (below : List Cell) :
      (⟨literals operands ++ below⟩ : Stack).depth =
        below.length + operands.length := by
    simp [Stack.depth, Nat.add_comm]
  constructor
  · intro below calls steps later a outcome
    unfold Walk.count at outcome
    split at outcome
    · cases outcome
    · rename_i allowed
      cases outcome
      rw [tick_apply]
      simp only [above, height, allowed]
  · intro below calls steps later failure outcome
    unfold Walk.count at outcome
    split at outcome
    · rename_i limit exceeded
      cases outcome
      refine ⟨literals operands, ?_⟩
      rw [tick_apply]
      simp only [above, height, exceeded]
    · cases outcome

/--
A step that takes the values on top, in the order in which they were pushed.
-/
theorem Mimics.ofPopMany
    {values : List Value}
    {count : Nat}
    {results : α → List Value}
    {rest : List Cell → Eval Unit}
    {walk : Nat → Walk α}
    (counted : values.length = count)
    (mimics : Mimics [] results (rest (literals values)) walk) :
    Mimics values.reverse results (popMany count >>= rest) walk := by
  have popped (below : List Cell) (steps calls : Nat) :
      popMany count (above values.reverse below steps calls) =
        .ok (literals values) (above [] below steps calls) := by
    have taken : values.reverse.length = count := by
      rw [List.length_reverse, counted]
    rw [popMany_above taken, List.reverse_reverse]
  constructor
  · intro below calls steps later a outcome
    rw [bind_of_ok (popped below steps calls),
      mimics.succeeds below calls outcome]
  · intro below calls steps later failure outcome
    obtain ⟨rubble, fails⟩ := mimics.fails below calls outcome
    exact ⟨rubble, by rw [bind_of_ok (popped below steps calls), fails]⟩

/-- A step that takes the value on top. -/
theorem Mimics.ofPop
    {value : Value}
    {others : List Value}
    {results : α → List Value}
    {rest : Cell → Eval Unit}
    {walk : Nat → Walk α}
    (mimics : Mimics others results (rest (.literal value)) walk) :
    Mimics (value :: others) results (pop >>= rest) walk := by
  have popped (below : List Cell) (steps calls : Nat) :
      pop (above (value :: others) below steps calls) =
        .ok (.literal value) (above others below steps calls) :=
    rfl
  constructor
  · intro below calls steps later a outcome
    rw [bind_of_ok (popped below steps calls),
      mimics.succeeds below calls outcome]
  · intro below calls steps later failure outcome
    obtain ⟨rubble, fails⟩ := mimics.fails below calls outcome
    exact ⟨rubble, by rw [bind_of_ok (popped below steps calls), fails]⟩

/-- An operation computes the same value from its operands. -/
theorem mimics_operate
    {op : Op}
    {values : List Value}
    (counted : values.length = op.arity) :
    Mimics values.reverse single (operate op)
      (fun _ => Walk.ofExcept (Walk.operate op values)) := by
  have finish (result : Except Fault Value) :
      Mimics [] single
        (Eval.ofExcept result >>= fun value => push (.literal value))
        (fun _ => Walk.ofExcept result) := by
    have pushed :
        Mimics [] single
          (Eval.ofExcept result >>= fun value => push (.literal value))
          (fun _ => Walk.ofExcept result >>= fun value => pure value) :=
      .ofExcept result fun value _ => mimics_push value
    simpa using pushed
  by_cases one : op.arity = 1
  · obtain ⟨a, rfl⟩ := List.length_eq_one_iff.mp (counted.trans one)
    simp only [operate, one, if_true]
    exact .ofPop (finish (op.unary (.literal a)))
  · have two : op.arity = 2 := by
      cases op <;> simp_all [Op.arity]
    obtain ⟨a, others, rfl⟩ :=
      List.exists_cons_of_length_eq_add_one (counted.trans two)
    obtain ⟨b, rfl⟩ : ∃ b, others = [b] := by
      rw [← List.length_eq_one_iff]
      simpa [two] using counted
    simp only [operate, one, if_false]
    exact .ofPop (.ofPop (finish (op.binaryResult (.literal a) (.literal b))))

/-- Programs of formulas mimic the walks over them. -/
def Runner.Follows (runner : Runner) (enter : Walk.Enter) : Prop :=
  ∀ (context : Context) (scopes : Scopes) (frame : Option Nat)
    (formula : Formula) (code : Code),
    context.Mirrors scopes → formula.Compiles code →
      Mimics [] single (runner scopes frame code) (enter context frame formula)

section Names

variable
  {config : Config}
  {runner : Runner}
  {enter : Walk.Enter}
  (follows : runner.Follows enter)
  {context : Context}
  {scopes : Scopes}
  (mirrors : context.Mirrors scopes)

/-- The cells of literals are read as their values are. -/
theorem mapM_index_literals (values : List Value) :
    (literals values).mapM Cell.index = values.mapM fun value =>
      (Cell.literal value).index := by
  rw [literals, List.mapM_map]
  rfl

/-- The program at an offset is compiled from the formula at that offset. -/
theorem compiles_getD
    {elements : List Formula}
    {programs : Array Code}
    (compile : List.Forall₂ Formula.Compiles elements programs.toList)
    (offset : Nat) :
    (elements.getD offset (.constant (.int 0))).Compiles
      (programs.getD offset Grid.blank) := by
  rw [List.getD_eq_getElem?_getD,
    Array.getD_eq_getD_getElem?, ← Array.getElem?_toList]
  by_cases inside : offset < elements.length
  · have insideToo : offset < programs.toList.length :=
      compile.length_eq ▸ inside
    rw [List.getElem?_eq_getElem inside, List.getElem?_eq_getElem insideToo]
    exact compile.get inside insideToo
  · have outside : programs.toList.length ≤ offset :=
      compile.length_eq ▸ Nat.le_of_not_lt inside
    rw [List.getElem?_eq_none (Nat.le_of_not_lt inside),
      List.getElem?_eq_none outside]
    exact .constant

include follows mirrors

/-- An entry evaluates to what its meaning evaluates to. -/
theorem mimics_apply
    {name : String}
    {meaning : Meaning}
    {entry : Entry}
    {values : List Value}
    (stands : meaning.StandsIn name entry)
    (counted : entry.operandCount = values.length) :
    Mimics values.reverse single (apply config runner scopes entry)
      (fun depth => Walk.inside name
        (Walk.apply config enter context name depth values meaning)) := by
  obtain ⟨ownName, definition⟩ := entry
  obtain ⟨rfl, represents⟩ := stands
  refine Mimics.inside ?_ ownName
  cases represents with
  | scalar compiles =>
      obtain rfl : values = [] := List.length_eq_zero_iff.mp counted.symm
      exact follows context scopes none _ _ mirrors compiles
  | @array grid elements compile =>
      refine .ofPopMany counted.symm ?_
      rw [mapM_index_literals]
      refine .ofExcept _ fun indices _ => ?_
      -- An element is found by its offset, which depends on the sizes alone.
      have sameOffset :
          Grid.offset ⟨grid.dims, #[]⟩ indices = grid.offset indices := rfl
      rw [sameOffset, Grid.element]
      cases grid.offset indices with
      | error fault => exact .fail _ _ _
      | ok offset =>
          exact follows context scopes none _ _ mirrors
            (compiles_getD compile offset)
  | @function params body code compiles =>
      refine .ofPopMany counted.symm ?_
      rw [mirrors.depth]
      exact follows _ _ _ _ _ (mirrors.push params values) compiles
  | @curve curve =>
      obtain ⟨value, rfl⟩ := List.length_eq_one_iff.mp counted.symm
      refine .ofPop ?_
      refine .ofExcept _ fun x _ => .ofExcept _ fun y _ => ?_
      exact mimics_push (.double y)

/-- How a reference uses its name. -/
def demand : Cell → Meaning.Demand
  | .lookup _ => .interpolation
  | .call _ arity => .call arity
  | .element _ rank => .index rank
  | _ => .value

omit follows mirrors in
/-- A use is refused on both sides for the same reason. -/
theorem refusal?_eq_useFault?
    {cell : Cell}
    {name : String}
    {meaning : Meaning}
    {entry : Entry}
    (reference : cell.reference? = some name)
    (stands : meaning.StandsIn name entry) :
    meaning.refusal? name (demand cell) = useFault? cell entry := by
  obtain ⟨ownName, definition⟩ := entry
  obtain ⟨rfl, represents⟩ := stands
  cases represents <;> cases cell <;> cases reference <;>
    simp [demand, Meaning.refusal?, useFault?, Entry.kind, Entry.arity?,
      Entry.grid?, wrongUse, Meaning.kind, Grid.rank, eq_comm]

/-- A reference evaluates to what its name stands for. -/
theorem mimics_reference
    {frame : Option Nat}
    {cell : Cell}
    {name : String}
    {values : List Value}
    (reference : cell.reference? = some name)
    (counted : values.length = cell.pops) :
    Mimics values.reverse single (execCell config runner scopes frame cell)
      (fun depth => Walk.refer config enter context frame (demand cell) name
        depth values) := by
  rw [execCell_reference frame reference, resolve_eq]
  unfold Walk.refer
  have related := mirrors.lookup? config frame name
  cases found : lookup? config scopes frame name with
  | none =>
      rw [found] at related
      cases known : context.lookup? config frame name with
      | some meaning =>
          rw [known] at related
          cases related
      | none => exact .fail _ _ _
  | some entry =>
      rw [found] at related
      cases known : context.lookup? config frame name with
      | none =>
          rw [known] at related
          cases related
      | some meaning =>
          rw [known] at related
          cases related with
          | some stands =>
              simp only [refusal?_eq_useFault? reference stands, pure_bind]
              cases allowed : useFault? cell entry with
              | some fault => exact .fail _ _ _
              | none =>
                  refine mimics_apply follows mirrors stands ?_
                  rw [operandCount_of_useFault? (by simp [reference]) allowed,
                    counted]

end Names

/-! The cells of a tree, executed part after part. -/

theorem execCells_append
    (config : Config)
    (runner : Runner)
    (scopes : Scopes)
    (frame : Option Nat)
    (first second : Code) :
    execCells config runner scopes frame (first ++ second) =
      (execCells config runner scopes frame first >>= fun _ =>
        execCells config runner scopes frame second) := by
  induction first with
  | nil => rfl
  | cons cell rest inductionHypothesis =>
      simp only [List.cons_append, execCells, inductionHypothesis, bind_assoc]

theorem execCells_single
    (config : Config)
    (runner : Runner)
    (scopes : Scopes)
    (frame : Option Nat)
    (cell : Cell) :
    execCells config runner scopes frame [cell] =
      (tick config >>= fun _ => execCell config runner scopes frame cell) := by
  simp [execCells]

/-- As many values as trees. -/
theorem length_of_walkAll
    {config : Config}
    {enter : Walk.Enter}
    {context : Context}
    {frame : Option Nat}
    {signatures : Signatures}
    {depth steps later : Nat}
    {trees : List Expr}
    {values : List Value}
    (succeeds :
      Walk.walkAll config enter context frame signatures depth trees steps =
        .ok values later) :
    values.length = trees.length := by
  induction trees generalizing depth steps values with
  | nil =>
      simp only [Walk.walkAll] at succeeds
      cases succeeds
      rfl
  | cons tree rest inductionHypothesis =>
      simp only [Walk.walkAll] at succeeds
      obtain ⟨value, afterFirst, -, restSucceeds⟩ := bind_eq_ok.mp succeeds
      obtain ⟨others, afterRest, othersSucceed, last⟩ :=
        bind_eq_ok.mp restSucceeds
      cases last
      rw [List.length_cons, List.length_cons, inductionHypothesis othersSucceed]

section Trees

variable
  {config : Config}
  {runner : Runner}
  {enter : Walk.Enter}
  {context : Context}
  {scopes : Scopes}
  {frame : Option Nat}
  {signatures : Signatures}
  {params : List String}

/-- A node is counted and then evaluated on the values of its operands. -/
theorem mimics_node
    {cell : Cell}
    (values : List Value)
    {walk : Nat → Walk Value}
    (mimics : Mimics values.reverse single
      (execCell config runner scopes frame cell) walk) :
    Mimics values.reverse single (execCells config runner scopes frame [cell])
      (fun depth => Walk.count config (depth + values.length) >>= fun _ =>
        walk depth) := by
  rw [execCells_single]
  have counted := mimics_tick config values.reverse
  rw [List.length_reverse] at counted
  exact counted.andThen fun _ _ => mimics

/--
The cell of a call finds its arguments and calls what the name stands for.
-/
theorem mimics_callCell
    (follows : runner.Follows enter)
    (mirrors : context.Mirrors scopes)
    {name : String}
    {values : List Value}
    {cell : Cell}
    (resolved :
      Compile.callCell signatures params name values.length = .ok cell) :
    Mimics values.reverse single (execCell config runner scopes frame cell)
      (fun depth =>
        match Builtin.ofName? name with
        | some builtin =>
            Walk.ofExcept (Walk.operate (.ofBuiltin builtin) values)
        | none =>
            Walk.refer config enter context frame
              (Walk.calls signatures name values.length) name
              depth values) := by
  rcases Compile.callCell_cases resolved with
      ⟨builtin, isBuiltin, rfl, arity⟩ |
      ⟨notBuiltin, rfl, isCurve, one⟩ |
      ⟨notBuiltin, rfl, isFunction⟩
  · simp only [isBuiltin]
    refine mimics_operate ?_
    rw [arity, Compile.arity_ofBuiltin]
  · simp only [notBuiltin, Walk.calls, isCurve, if_true]
    exact mimics_reference follows mirrors rfl one
  · simp only [notBuiltin, Walk.calls, isFunction, Option.some.injEq,
      reduceCtorEq, if_false]
    exact mimics_reference follows mirrors rfl rfl

/-- The opposite of a word that is not negative. -/
theorem checkedNeg_of_nonneg
    {n : Int64}
    (nonnegative : 0 ≤ n.toInt) :
    checkedNeg n = some (-n) := by
  have upper := n.toInt_lt
  have bounds :
      Int64.minValue.toInt ≤ -n.toInt ∧ -n.toInt ≤ Int64.maxValue.toInt := by
    simp only [Int64.toInt_minValue, Int64.toInt_maxValue]
    omega
  rw [checkedNeg, checkedInt, if_pos bounds, Int64.ofInt_neg, Int64.ofInt_toInt]

/-- A sign in front of a number is folded into it. -/
theorem operate_negate_of_folded
    {operand : Expr}
    {folded : Value}
    (lexical : operand.Lexical)
    (isFolded : Compile.negatedLiteral? operand = some folded) :
    ∃ position value,
      operand = .literal position value ∧ Walk.isNumber operand = true ∧
        Walk.operate .negate [value] = .ok folded := by
  unfold Compile.negatedLiteral? at isFolded
  split at isFolded
  · rename_i position n
    cases isFolded
    have nonnegative : 0 ≤ n.toInt :=
      lexical (.literal (.int n)) (by simp [Expr.words])
    refine ⟨position, .int n, rfl, rfl, ?_⟩
    simp [Walk.operate, Op.unary, Op.unaryNumber,
      checkedNeg_of_nonneg nonnegative, Op.fits]
  · rename_i position x
    cases isFolded
    exact ⟨position, .double x, rfl, rfl, rfl⟩
  · cases isFolded

/-- An operand that is not folded is not a number. -/
theorem isNumber_of_not_folded
    {operand : Expr}
    (notFolded : Compile.negatedLiteral? operand = none) :
    Walk.isNumber operand = false := by
  cases operand with
  | literal position value =>
      cases value <;>
        simp_all [Compile.negatedLiteral?, Walk.isNumber, Value.isNumeric]
  | name | call | element | negate | binary => rfl

mutual

/-- The program of a tree mimics the walk over it. -/
theorem mimics_emit
    (follows : runner.Follows enter)
    (mirrors : context.Mirrors scopes)
    (tree : Expr)
    {code : Code}
    (lexical : tree.Lexical)
    (compiled : Compile.emit signatures params tree = .ok code) :
    Mimics [] single (execCells config runner scopes frame code)
      (fun depth =>
        Walk.walk config enter context frame signatures depth tree) := by
  cases tree with
  | literal position value =>
      cases compiled
      simp only [Walk.walk]
      exact mimics_node [] (mimics_push value)
  | name position name =>
      obtain ⟨cell, resolved, last⟩ := except_bind_eq_ok.mp compiled
      cases last
      obtain rfl := Compile.variable_of_valueOf (Compile.ok_of_anchor resolved)
      simp only [Walk.walk]
      exact mimics_node [] (mimics_reference follows mirrors rfl rfl)
  | call position name arguments =>
      obtain ⟨cell, resolved, rest⟩ := except_bind_eq_ok.mp compiled
      obtain ⟨argumentCode, argumentsCompile, last⟩ := except_bind_eq_ok.mp rest
      cases last
      have argumentsLexical : ∀ argument ∈ arguments, argument.Lexical :=
        Expr.Lexical.of_call lexical
      rw [execCells_append]
      simp only [Walk.walk]
      refine (mimics_emitAll follows mirrors arguments argumentsLexical
        argumentsCompile).andThen fun values given => ?_
      obtain ⟨depth, steps, later, walked⟩ := given
      have counted := length_of_walkAll walked
      rw [← counted]
      refine mimics_node values ?_
      rw [← counted] at resolved
      exact mimics_callCell follows mirrors (Compile.ok_of_anchor resolved)
  | element position name indices =>
      obtain ⟨cell, resolved, rest⟩ := except_bind_eq_ok.mp compiled
      obtain ⟨indexCode, indicesCompile, last⟩ := except_bind_eq_ok.mp rest
      cases last
      have indicesLexical : ∀ index ∈ indices, index.Lexical :=
        Expr.Lexical.of_element lexical
      rw [execCells_append]
      simp only [Walk.walk]
      refine (mimics_emitAll follows mirrors indices indicesLexical
        indicesCompile).andThen fun values given => ?_
      obtain ⟨depth, steps, later, walked⟩ := given
      have counted := length_of_walkAll walked
      rw [← counted]
      refine mimics_node values ?_
      rw [← counted] at resolved
      obtain rfl :=
        Compile.element_of_elementCell (Compile.ok_of_anchor resolved)
      exact mimics_reference follows mirrors rfl rfl
  | negate position operand =>
      have operandLexical : operand.Lexical := lexical
      simp only [Compile.emit] at compiled
      simp only [Walk.walk]
      split at compiled
      · rename_i folded isFolded
        cases compiled
        obtain ⟨place, value, rfl, isNumber, negated⟩ :=
          operate_negate_of_folded operandLexical isFolded
        simp only [isNumber, Walk.walk, if_true, bind_assoc, pure_bind, negated,
          Walk.ofExcept]
        exact mimics_node [] (mimics_push folded)
      · rename_i notFolded
        obtain ⟨operandCode, operandCompiles, last⟩ :=
          except_bind_eq_ok.mp compiled
        cases last
        rw [execCells_append]
        simp only [isNumber_of_not_folded notFolded]
        have operandMimics :=
          mimics_emit follows mirrors operand operandLexical operandCompiles
        exact operandMimics.andThen fun value _ =>
          mimics_node [value] (mimics_operate rfl)
  | binary position op left right =>
      obtain ⟨leftLexical, rightLexical⟩ := Expr.Lexical.of_binary lexical
      simp only [Compile.emit] at compiled
      simp only [Walk.walk]
      split at compiled
      · rename_i isSquare
        obtain ⟨baseCode, baseCompiles, last⟩ := except_bind_eq_ok.mp compiled
        cases last
        rw [execCells_append]
        simp only [isSquare]
        have mimicsBase :=
          mimics_emit follows mirrors left leftLexical baseCompiles
        exact mimicsBase.andThen fun base _ =>
          mimics_node [base] (mimics_operate rfl)
      · rename_i notSquare
        obtain ⟨leftCode, leftCompiles, rest⟩ := except_bind_eq_ok.mp compiled
        obtain ⟨rightCode, rightCompiles, last⟩ := except_bind_eq_ok.mp rest
        cases last
        rw [List.append_assoc, execCells_append, execCells_append]
        simp only [notSquare]
        have leftMimics :=
          mimics_emit follows mirrors left leftLexical leftCompiles
        have rightMimics :=
          mimics_emit follows mirrors right rightLexical rightCompiles
        refine leftMimics.andThen fun a _ => ?_
        refine (rightMimics.extend [a]).andThen fun b _ => ?_
        exact mimics_node [a, b] (mimics_operate rfl)

/-- The programs of several trees mimic the walks over them. -/
theorem mimics_emitAll
    (follows : runner.Follows enter)
    (mirrors : context.Mirrors scopes)
    (trees : List Expr)
    {code : Code}
    (lexical : ∀ tree ∈ trees, tree.Lexical)
    (compiled : Compile.emitAll signatures params trees = .ok code) :
    Mimics [] List.reverse (execCells config runner scopes frame code)
      (fun depth =>
        Walk.walkAll config enter context frame signatures depth trees) := by
  cases trees with
  | nil =>
      cases compiled
      simp only [Walk.walkAll]
      exact ⟨fun below calls steps later a outcome => by cases outcome; rfl,
        fun below calls steps later failure outcome => by cases outcome⟩
  | cons tree rest =>
      obtain ⟨firstCode, firstCompiles, more⟩ := except_bind_eq_ok.mp compiled
      obtain ⟨restCode, restCompiles, last⟩ := except_bind_eq_ok.mp more
      cases last
      have firstLexical := lexical tree (by simp)
      have restLexical : ∀ other ∈ rest, other.Lexical :=
        fun other member => lexical other (by simp [member])
      rw [execCells_append]
      simp only [Walk.walkAll]
      refine (mimics_emit follows mirrors tree firstLexical
        firstCompiles).andThen fun value _ => ?_
      have others := (mimics_emitAll follows mirrors rest restLexical
        restCompiles).extend [value]
      exact others.map fun values => by simp

end

end Trees

/-- Programs mimic the walks over their formulas at every level of nesting. -/
theorem runProgram_follows
    (config : Config)
    (levels : Nat) :
    (runProgram config levels).Follows (Walk.formula config levels) := by
  induction levels with
  | zero =>
      intro context scopes frame formula code _ _
      exact .fail _ _ _
  | succ levels inductionHypothesis =>
      intro context scopes frame formula code mirrors compiles
      refine Mimics.nested ?_
      cases compiles with
      | @constant signatures position value =>
          simp only [Walk.formula, Walk.walk]
          exact mimics_node [] (mimics_push value)
      | @compiled signatures params tree code written succeeds =>
          simp only [Walk.formula]
          exact mimics_emit inductionHypothesis mirrors tree written.lexical
            (Compile.emit_of_expr succeeds).1

end Eval

end Formulary
