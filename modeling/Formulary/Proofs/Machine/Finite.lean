import Formulary.Proofs.Eval.Origin
import Formulary.Proofs.Machine.Constants

namespace Formulary

open Stateful

/-!
# Machines answer finite values

Asked with finite arguments, a loaded machine answers with a finite value or
refuses, exactly when each of its tables has finite values only.  Operators and
built-in functions refuse a result that is not finite, but the line through two
points of a table is not checked, and overflows where they are far apart.
-/

namespace Machine

/-- An answer that, if it is a double, is finite. -/
def Answer.Finite : Answer → Prop
  | .value result => result.Finite
  | .number x => x.isFinite = true
  | _ => True

/-- A question all of whose arguments that are doubles are finite. -/
def Query.FiniteArguments : Query → Prop
  | .call _ arguments => ∀ value ∈ arguments, value.Finite
  | .callNumber _ arguments => ∀ x ∈ arguments, x.isFinite = true
  | _ => True

/--
The evaluations that a machine can be asked for, on operands that lie on the
stack.
-/
inductive Asked (machine : Machine) : Eval.Work → Prop where
  | expression
      (source : String)
      (code : Code)
      (compiled : machine.compile source = .ok code) :
      Asked machine (.program none code)
  | builtin
      (builtin : Builtin)
      (arguments : List Value)
      (finite : ∀ value ∈ arguments, value.Finite) :
      Asked machine
        (.program none (Eval.literals arguments ++ [.op (.ofBuiltin builtin)]))
  | entry
      (entry : Entry)
      (member : entry ∈ machine.entries) :
      Asked machine (.application entry)

/--
One operation after another, when what the first one gives has a property.
-/
theorem yields_given_bind
    {machine : Machine}
    {holds : α → Prop}
    {gives : β → Prop}
    {action : Session α}
    {rest : α → Session β}
    (first : Yields holds (given (action machine)))
    (second : ∀ a next, holds a → Yields gives (given (rest a next))) :
    Yields gives (given ((action >>= rest) machine)) := by
  cases outcome : action machine with
  | ok a next =>
      rw [outcome] at first
      rw [bind_of_ok outcome]
      exact second a next (first a rfl)
  | error error next =>
      rw [bind_of_error outcome]
      exact .error error

/-- What leaves nothing gives the same on all stacks of one depth. -/
theorem LeavesNothing.given_eq
    {machine : Machine}
    {config : Config}
    {stack other : Stack}
    {action : Session Value}
    (leaves : machine.LeavesNothing config stack.depth action)
    (sameDepth : other.depth = stack.depth) :
    given (action (machine.on config stack)) =
      given (action (machine.on config other)) := by
  rcases leaves with ⟨value, succeeds⟩ | ⟨error, fails⟩
  · rw [succeeds stack rfl, succeeds other sameDepth]
    rfl
  · rw [fails stack rfl, fails other sameDepth]
    rfl

/-- Every depth is that of a stack of finite cells. -/
theorem exists_finite_stack (depth : Nat) :
    ∃ stack : Stack, stack.depth = depth ∧ stack.Finite := by
  refine ⟨⟨List.replicate depth (.literal (.int 0))⟩, List.length_replicate, ?_⟩
  intro cell member
  obtain rfl := List.eq_of_mem_replicate member
  trivial

theorem finite_pushAll
    {stack : Stack}
    (stackFinite : stack.Finite)
    {operands : List Value}
    (operandsFinite : ∀ value ∈ operands, value.Finite) :
    (stack.pushAll (Eval.literals operands)).Finite := by
  refine List.forall_mem_append.mpr ⟨?_, stackFinite⟩
  intro cell member
  obtain ⟨value, isOperand, rfl⟩ := List.mem_map.mp (List.mem_reverse.mp member)
  exact operandsFinite value isOperand

theorem finite_builtinCall
    {arguments : List Value}
    (argumentsFinite : ∀ value ∈ arguments, value.Finite)
    (builtin : Builtin) :
    Code.Finite (Eval.literals arguments ++ [.op (.ofBuiltin builtin)]) := by
  refine List.forall_mem_append.mpr ⟨?_, by simp [Cell.Finite]⟩
  intro cell member
  obtain ⟨value, isArgument, rfl⟩ := List.mem_map.mp member
  exact argumentsFinite value isArgument

section Answers

variable
  {machine : Machine}
  (loaded : machine.Loaded)
  {config : Config}
  (tables : machine.TablesFinite config.extrapolation)
  (stack : Stack)

include loaded tables

/-- A program of finite literals gives a finite value. -/
theorem finite_evaluateInside
    (context : Failure → Failure)
    {code : Code}
    (accepted : Code.check code = .ok ())
    (codeFinite : code.Finite) :
    Yields Value.Finite
      (given (evaluateInside context code (machine.on config stack))) := by
  obtain ⟨other, sameDepth, otherFinite⟩ := exists_finite_stack stack.depth
  have leaves :=
    leavesNothing_evaluateInside loaded.callDepth config stack.depth
      loaded.checked accepted context
  have finitary :=
    Eval.runProgram_finitary config config.maxCallDepth machine.scopes none code
      (loaded.scopesFinite tables) codeFinite
  intro value gives
  rw [leaves.given_eq sameDepth, given_evaluateInside] at gives
  exact finite_of_reached finitary otherFinite gives

/-- An entry gives a finite value on finite operands. -/
theorem finite_valueOf
    {entry : Entry}
    (member : entry ∈ machine.entries)
    {operands : List Value}
    (counted : operands.length = entry.operandCount)
    (operandsFinite : ∀ value ∈ operands, value.Finite) :
    Yields Value.Finite
      (given (valueOf entry
        (machine.on config (stack.pushAll (Eval.literals operands))))) := by
  obtain ⟨other, sameDepth, otherFinite⟩ := exists_finite_stack stack.depth
  have leaves :=
    leavesNothing_valueOf loaded.callDepth config stack.depth loaded.checked
      (loaded.checked.globals entry member) counted
  have same :
      given (valueOf entry
        (machine.on config (stack.pushAll (Eval.literals operands)))) =
        given (valueOf entry
          (machine.on config (other.pushAll (Eval.literals operands)))) :=
    leaves.given_eq sameDepth
  have finite := loaded.scopesFinite tables
  have finitary :=
    Eval.finitary_apply
      (Eval.runProgram_finitary config config.maxCallDepth) finite
      (finite.globals entry member)
  intro value gives
  rw [same, given_valueOf config other counted] at gives
  exact finite_of_reached finitary
    (finite_pushAll otherFinite operandsFinite) gives

theorem finite_valueOf_scalar
    {entry : Entry}
    (member : entry ∈ machine.entries)
    (isScalar : entry.isScalar = true) :
    Yields Value.Finite (given (valueOf entry (machine.on config stack))) := by
  have counted : ([] : List Value).length = entry.operandCount :=
    (Entry.operandCount_of_isScalar isScalar).symm
  exact finite_valueOf loaded tables stack member counted nofun

theorem finite_scalar
    (name : String)
    (missing : Missing) :
    Yields (fun found => ∀ value ∈ found, value.Finite)
      (given (scalar name missing (machine.on config stack))) := by
  cases found : (machine.on config stack).find? name with
  | none =>
      cases missing with
      | abort =>
          simp only [scalar, bind_get, found]
          exact .error _
      | useDefault =>
          simp only [scalar, bind_get, found]
          exact .ok (by simp)
  | some entry =>
      obtain ⟨member, rfl⟩ := loaded.wellFormed.mem_of_find? found
      by_cases isScalar : entry.isScalar = true
      · simp only [scalar, bind_get, found, if_pos isScalar]
        refine yields_given_bind
          (finite_valueOf_scalar loaded tables stack member isScalar) ?_
        intro value next isFinite
        exact .ok (by simpa using isFinite)
      · simp only [scalar, bind_get, found, if_neg isScalar]
        exact .error _

theorem finite_element
    {entry : Entry}
    (member : entry ∈ machine.entries)
    (indices : List Int64) :
    Yields Value.Finite
      (given (element entry indices (machine.on config stack))) := by
  unfold element
  cases isArray : entry.grid? with
  | none => exact .error _
  | some grid =>
      by_cases ranked : indices.length = grid.rank
      · simp only [if_pos ranked]
        have counted : (indices.map Value.int).length = entry.operandCount := by
          rw [Entry.operandCount_of_grid? isArray, List.length_map, ranked]
        have operandsFinite :
            ∀ value ∈ indices.map Value.int, value.Finite := by
          intro value isOperand
          obtain ⟨index, -, rfl⟩ := List.mem_map.mp isOperand
          trivial
        rw [Eval.literals_ints]
        exact finite_valueOf loaded tables stack member counted operandsFinite
      · simp only [if_neg ranked]
        exact .error _

theorem finite_call
    (name : String)
    {arguments : List Value}
    (argumentsFinite : ∀ value ∈ arguments, value.Finite) :
    Yields Value.Finite
      (given (call name arguments (machine.on config stack))) := by
  unfold call
  cases Builtin.ofName? name with
  | some builtin =>
      by_cases counted : builtin.arity = arguments.length
      · simp only [checkArity, if_pos counted]
        exact finite_evaluateInside loaded tables stack _
          (check_builtinCall counted)
          (finite_builtinCall argumentsFinite builtin)
      · simp only [checkArity, if_neg counted]
        exact .error _
  | none =>
      cases found : (machine.on config stack).find? name with
      | none =>
          simp only [bind_get, found]
          exact .error _
      | some entry =>
          obtain ⟨member, rfl⟩ := loaded.wellFormed.mem_of_find? found
          cases callable : entry.arity? with
          | none =>
              simp only [bind_get, found, callable]
              exact .error _
          | some arity =>
              by_cases counted : arity = arguments.length
              · simp only [bind_get, found, callable, checkArity,
                  if_pos counted]
                have operands := Entry.operandCount_of_arity? callable
                exact finite_valueOf loaded tables stack member
                  (operands.trans counted).symm argumentsFinite
              · simp only [bind_get, found, callable, checkArity,
                  if_neg counted]
                exact .error _

theorem finite_eval (source : String) :
    Yields Value.Finite (given (eval source (machine.on config stack))) := by
  cases compiled : (machine.on config stack).compile source with
  | error error =>
      simp only [eval, bind_get, compiled]
      exact .error _
  | ok code =>
      simp only [eval, bind_get, compiled]
      exact finite_evaluateInside loaded tables stack _
        (check_of_compile compiled) (finite_of_compile compiled)

theorem finite_callNumber
    (name : String)
    {arguments : List Double}
    (argumentsFinite : ∀ x ∈ arguments, x.isFinite = true) :
    Yields (fun x => x.isFinite = true)
      (given (callNumber name arguments (machine.on config stack))) := by
  have valuesFinite : ∀ value ∈ arguments.map Value.double, value.Finite := by
    intro value isArgument
    obtain ⟨x, isNumber, rfl⟩ := List.mem_map.mp isArgument
    exact argumentsFinite x isNumber
  refine yields_given_bind
    (finite_call loaded tables stack name valuesFinite) ?_
  intro result next isFinite
  cases result with
  | int n => exact .ok (Double.isFinite_ofInt64 n)
  | double x => exact .ok isFinite
  | string | bool => exact .error _

/-- Questions with finite arguments are answered with finite values. -/
theorem finite_ask
    {query : Query}
    (belongs : query.Belongs machine)
    (finiteArguments : query.FiniteArguments) :
    Yields Answer.Finite (query.ask (machine.on config stack)).1 := by
  rw [ask_eq_given]
  have wrapped {action : Session Value}
      (finite :
        Yields Value.Finite (given (action (machine.on config stack)))) :
      Yields Answer.Finite
        (given ((action >>= fun value => pure (.value value))
          (machine.on config stack))) :=
    yields_given_bind finite fun value next isFinite => .ok isFinite
  cases query with
  | scalar name missing =>
      refine yields_given_bind
        (finite_scalar loaded tables stack name missing) ?_
      intro found next isFinite
      cases found with
      | none => exact .ok trivial
      | some value => exact .ok (isFinite value rfl)
  | valueOf entry =>
      obtain ⟨member, isScalar⟩ := belongs
      exact wrapped (finite_valueOf_scalar loaded tables stack member isScalar)
  | element entry indices =>
      exact wrapped (finite_element loaded tables stack belongs indices)
  | call name arguments =>
      exact wrapped (finite_call loaded tables stack name finiteArguments)
  | callNumber name arguments =>
      refine yields_given_bind
        (finite_callNumber loaded tables stack name finiteArguments) ?_
      intro x next isFinite
      exact .ok isFinite
  | eval source => exact wrapped (finite_eval loaded tables stack source)
  | constants => exact .ok trivial

end Answers

/-- A table puts its value in the place of its operand. -/
theorem apply_curve
    {config : Config}
    {curve : Curve}
    {x y : Double}
    (value : curve.valueAt config.extrapolation x = .ok y)
    (runner : Eval.Runner)
    (scopes : Scopes)
    (name : String)
    (stack : Stack)
    (steps calls : Nat) :
    Eval.apply config runner scopes ⟨name, .curve curve⟩
        ⟨stack.push (.literal (.double x)), steps, calls⟩ =
      .ok () ⟨stack.push (.literal (.double y)), steps, calls⟩ := by
  have popped :
      Eval.pop ⟨stack.push (.literal (.double x)), steps, calls⟩ =
        .ok (.literal (.double x)) ⟨stack, steps, calls⟩ :=
    rfl
  have number : (Cell.literal (.double x)).number = .ok x := rfl
  simp only [Eval.apply, Eval.applyDefinition, Eval.inside, bind_of_ok popped,
    number, Eval.ofExcept_ok, pure_bind, value]
  rfl

/-- A table that is called gives its value. -/
theorem given_call_curve
    {machine : Machine}
    (loaded : machine.Loaded)
    {name : String}
    {curve : Curve}
    (member : ⟨name, .curve curve⟩ ∈ machine.entries)
    {config : Config}
    {x y : Double}
    (value : curve.valueAt config.extrapolation x = .ok y)
    (stack : Stack) :
    given (call name [.double x] (machine.on config stack)) =
      .ok (.double y) := by
  have notBuiltin := (loaded.wellFormed.entries _ member).notBuiltin
  have found :
      (machine.on config stack).find? name = some ⟨name, .curve curve⟩ :=
    loaded.wellFormed.found _ member
  have asks :
      call name [.double x] (machine.on config stack) =
        valueOf ⟨name, .curve curve⟩
          (machine.on config (stack.pushAll (Eval.literals [.double x]))) := by
    simp only [call, notBuiltin, bind_get, found, Entry.arity?, checkArity]
    rfl
  rw [asks, given_valueOf config stack rfl]
  have applied :=
    apply_curve value (Eval.runTop config) machine.scopes name stack 0 0
  exact congrArg (reached id) applied

/-- A table has values at finite numbers only. -/
theorem isFinite_of_valueAt
    {extrapolation : Curve.Extrapolation}
    {curve : Curve}
    {x y : Double}
    (value : curve.valueAt extrapolation x = .ok y) :
    x.isFinite = true := by
  unfold Curve.valueAt at value
  cases isFinite : x.isFinite with
  | true => rfl
  | false =>
      rw [isFinite] at value
      cases value

/-- Where all answers are finite, no table has a value that is not. -/
theorem tablesFinite_of_answers
    {machine : Machine}
    (loaded : machine.Loaded)
    {config : Config}
    {stack : Stack}
    (finite :
      ∀ query : Query, query.Belongs machine → query.FiniteArguments →
        ∀ answer, (query.ask (machine.on config stack)).1 = .ok answer →
          answer.Finite) :
    machine.TablesFinite config.extrapolation := by
  rintro ⟨name, definition⟩ member curve rfl x y value
  have argumentFinite : (Query.call name [.double x]).FiniteArguments := by
    intro argument isArgument
    obtain rfl := List.mem_singleton.mp isArgument
    exact isFinite_of_valueAt value
  have answers :
      ((Query.call name [.double x]).ask (machine.on config stack)).1 =
        .ok (.value (.double y)) := by
    rw [ask_eq_given, Query.session, given_map,
      given_call_curve loaded member value stack]
    rfl
  exact finite (.call name [.double x]) trivial argumentFinite _ answers

theorem Loaded.finiteLiterals
    {machine : Machine}
    (loaded : machine.Loaded) :
    machine.scopes.FiniteLiterals :=
  ⟨loaded.finite, by simp [loaded.frames]⟩

theorem Asked.finite
    {machine : Machine}
    (loaded : machine.Loaded)
    {work : Eval.Work}
    (asked : machine.Asked work) :
    work.Finite := by
  cases asked with
  | expression source code compiled => exact finite_of_compile compiled
  | builtin builtin arguments argumentsFinite =>
      exact finite_builtinCall argumentsFinite builtin
  | entry entry member => exact loaded.finite entry member

/--
A loaded machine, under all settings and with any stack, answers questions with
finite arguments by finite values only, exactly when all values of its tables
are finite.  In every evaluation on finite operands, all values are finite at
every moment until it is given up, unless a table is looked up where its value
is not.
-/
theorem answers_finite_iff_tables_finite
    {machine : Machine}
    (loaded : machine.Loaded)
    (config : Config)
    (stack : Stack) :
    ((∀ query : Query, query.Belongs machine → query.FiniteArguments →
        ∀ answer, (query.ask (machine.on config stack)).1 = .ok answer →
          answer.Finite) ↔
      machine.TablesFinite config.extrapolation) ∧
    ∀ (work : Eval.Work) (operands : Stack),
      machine.Asked work → operands.Finite →
      ∀ later last,
        Eval.Path config
          ⟨.start work, machine.scopes, ⟨operands, 0, 0⟩, []⟩ later last →
          (∀ moment ∈ later,
            (∃ failure, moment.task = .giveUp failure) ∨
              moment.run.stack.Finite) ∨
          ∃ moment ∈
            ⟨.start work, machine.scopes, ⟨operands, 0, 0⟩, []⟩ :: later,
            moment.Overflows config := by
  refine ⟨⟨tablesFinite_of_answers loaded, ?_⟩, ?_⟩
  · intro tables query belongs finiteArguments
    exact finite_ask loaded tables stack belongs finiteArguments
  · intro work operands asked operandsFinite later last path
    have start :
        Eval.Moment.Finite
          ⟨.start work, machine.scopes, ⟨operands, 0, 0⟩, []⟩ :=
      .working (asked.finite loaded) loaded.finiteLiterals operandsFinite nofun
    refine (path.finite start).imp_left fun allFinite moment member => ?_
    exact (allFinite moment (List.mem_cons_of_mem _ member)).stack

/-- A table of a single point has its value everywhere. -/
theorem finite_of_single
    (extrapolation : Curve.Extrapolation)
    {point : Point}
    (isFinite : point.y.isFinite = true) :
    (Curve.mk [point]).Finite extrapolation := by
  intro x y value
  have finiteAt := isFinite_of_valueAt value
  simp only [Curve.valueAt, finiteAt] at value
  cases value
  exact isFinite

/-- All answers of a machine with a table of a single point are finite. -/
theorem answers_finite_iff_tables_finite_single :
    ∃ machine : Machine,
      load .replace "" "t = \x7b(0, 2)\x7d; y = t(5) * 1.5;" (ofConfig {}) =
        .ok () machine ∧
        ((Query.scalar "y" .abort).ask (machine.on {} .empty)).1 =
          .ok (.value (.double (.ofInt 3))) ∧
        ∀ query : Query, query.Belongs machine → query.FiniteArguments →
          ∀ answer, (query.ask (machine.on {} .empty)).1 = .ok answer →
            answer.Finite := by
  have gives :
      given (load .replace "" "t = \x7b(0, 2)\x7d; y = t(5) * 1.5;"
        (ofConfig {})) = .ok () := by
    decide +kernel
  have entries :
      (final (load .replace "" "t = \x7b(0, 2)\x7d; y = t(5) * 1.5;"
        (ofConfig {}))).entries =
        [⟨"t", .curve ⟨[⟨.ofInt 0, .ofInt 2⟩]⟩⟩,
          ⟨"y", .scalar [.literal (.int 5), .lookup "t",
            .literal (.double (.ofRatio false 3 2)), .op (.binary .mul)]⟩] := by
    decide +kernel
  have loads := ok_of_given gives
  refine ⟨_, loads, by decide +kernel, ?_⟩
  refine (answers_finite_iff_tables_finite ((Loaded.start {}).load loads) {}
    .empty).1.mpr ?_
  intro entry member curve isCurve
  rw [entries] at member
  simp only [List.mem_cons, List.not_mem_nil, or_false] at member
  rcases member with rfl | rfl
  · cases isCurve
    exact finite_of_single _ (by decide +kernel)
  · cases isCurve

/--
Between two finite points a table is infinite under every policy, and
comparisons hide it.
-/
theorem table_overflows :
    ∃ machine : Machine,
      load .replace "" "t = \x7b(0, -1e308), (1, 1e308)\x7d;" (ofConfig {}) =
        .ok () machine ∧
        ∀ extrapolation : Curve.Extrapolation,
          ((Query.eval "t(0.5)").ask (machine.on { extrapolation } .empty)).1 =
              .ok (.value (.double (.infinity false))) ∧
            ((Query.eval "t(0.5) > 1").ask
              (machine.on { extrapolation } .empty)).1 =
              .ok (.value (.bool true)) := by
  have gives :
      given (load .replace "" "t = \x7b(0, -1e308), (1, 1e308)\x7d;"
        (ofConfig {})) = .ok () := by
    decide +kernel
  refine ⟨_, ok_of_given gives, ?_⟩
  intro extrapolation
  cases extrapolation with
  | linear => decide +kernel
  | clamp => decide +kernel
  | refuse => decide +kernel

end Machine

end Formulary
