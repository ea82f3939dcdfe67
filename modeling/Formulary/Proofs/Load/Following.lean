import Formulary.Proofs.Compile.Extension
import Formulary.Proofs.Machine.Invariant

namespace Formulary

open Stateful

/-!
# Statements carried out elsewhere

The same statements, standing elsewhere and compiled against more declarations,
are carried out in the same way: when they succeed on a machine being built,
they succeed on every such machine with the same scopes, bind the same entries
and print the same values after those that are printed already.
-/

namespace Machine

/-- A machine on which statements are being carried out. -/
def building
    (config : Config)
    (scopes : Scopes)
    (printed : List Value) :
    Machine :=
  { ofConfig config with scopes := scopes, printed := printed }

/-- A value that is found while building does not depend on what is printed. -/
theorem evaluate_building
    {code : Code}
    {config : Config}
    {scopes : Scopes}
    {printed : List Value}
    {value : Value}
    {next : Machine}
    (succeeds :
      evaluate code (building config scopes printed) = .ok value next) :
    next = building config scopes printed ∧
      ∀ others,
        evaluate code (building config scopes others) =
          .ok value (building config scopes others) := by
  have idle : next.callDepth = 0 := by
    have undisturbed :=
      undisturbed_evaluate code (building config scopes printed)
    rw [succeeds] at undisturbed
    exact undisturbed.idle rfl
  simp only [evaluate] at succeeds ⊢
  split at succeeds
  · rename_i result run outcome
    cases succeeds
    have left (others : List Value) :
        ((building config scopes others).after run).truncate 0 =
          building config scopes others := by
      have nothing : run.stack.truncate 0 = Stack.empty := by
        simp [Stack.truncate, Stack.depth, Stack.empty]
      have depth : run.callDepth = 0 := idle
      simp only [truncate, after, nothing, depth]
      rfl
    refine ⟨left printed, fun others => ?_⟩
    -- The evaluation reads the scopes and the settings, which are the same.
    split
    · rename_i sameResult sameRun sameOutcome
      cases outcome.symm.trans sameOutcome
      exact congrArg _ (left others)
    · rename_i failure failed sameOutcome
      cases outcome.symm.trans sameOutcome
  · cases succeeds

end Machine

namespace Load

open Machine

/--
An operation that follows another.  When the first one succeeds on a machine
being built, the other does, too, whatever has been printed before: with the
same result, the same scopes and the same values printed.
-/
def Follows (config : Config) (action mirror : Build α) : Prop :=
  ∀ (scopes : Scopes) (printed others : List Value) (a : α) (next : Machine),
    action (building config scopes printed) = .ok a next →
      ∃ (later : Scopes) (log : List Value),
        next = building config later (printed ++ log) ∧
          mirror (building config scopes others) =
            .ok a (building config later (others ++ log))

namespace Follows

variable {config : Config}

/--
What the first operation leaves the other leaves after what is printed before
it.
-/
theorem carry
    {action mirror : Build α}
    (follows : Follows config action mirror)
    {scopes later : Scopes}
    {printed log : List Value}
    {a : α}
    (succeeds :
      action (building config scopes printed) =
        .ok a (building config later (printed ++ log)))
    (others : List Value) :
    mirror (building config scopes others) =
      .ok a (building config later (others ++ log)) := by
  obtain ⟨reached, more, isNext, mirrored⟩ :=
    follows scopes printed others a _ succeeds
  obtain rfl : later = reached := congrArg Machine.scopes isNext
  obtain rfl : log = more :=
    List.append_cancel_left (congrArg Machine.printed isNext)
  exact mirrored

theorem pure (a : α) : Follows config (pure a) (pure a) := by
  intro scopes printed others result next succeeds
  cases succeeds
  refine ⟨scopes, [], ?_, ?_⟩
  · rw [List.append_nil]
  · rw [List.append_nil]
    rfl

/-- Nothing has to be done when the first operation fails. -/
theorem fail
    (fault : CompileFault)
    (position : Position)
    (mirror : Build α) :
    Follows config (fail fault position) mirror := by
  intro scopes printed others result next succeeds
  cases succeeds

theorem bind
    {action mirror : Build α}
    {rest mirrorRest : α → Build β}
    (first : Follows config action mirror)
    (second : ∀ a, Follows config (rest a) (mirrorRest a)) :
    Follows config (action >>= rest) (mirror >>= mirrorRest) := by
  intro scopes printed others b final succeeds
  obtain ⟨a, next, firstSucceeds, restSucceeds⟩ := bind_eq_ok.mp succeeds
  obtain ⟨between, log, rfl, follows⟩ :=
    first scopes printed others a next firstSucceeds
  obtain ⟨later, more, rfl, restFollows⟩ :=
    second a between (printed ++ log) (others ++ log) b final restSucceeds
  refine ⟨later, log ++ more, ?_, ?_⟩
  · rw [List.append_assoc]
  · rw [bind_of_ok follows, restFollows, List.append_assoc]

/--
What is printed is the only thing that two machines being built may disagree
about.
-/
theorem ofGet
    {rest mirrorRest : Machine → Build α}
    (second :
      ∀ scopes printed others,
        Follows config (rest (building config scopes printed))
          (mirrorRest (building config scopes others))) :
    Follows config (get >>= rest) (get >>= mirrorRest) :=
  fun scopes printed others =>
    second scopes printed others scopes printed others

theorem ofExcept
    {result mirror : Except Diagnostic α}
    (carries : ∀ a, result = .ok a → mirror = .ok a) :
    Follows config (ofExcept result) (ofExcept mirror) := by
  cases result with
  | ok a =>
      rw [carries a rfl]
      exact .pure a
  | error diagnostic =>
      intro scopes printed others a next succeeds
      cases succeeds

theorem define
    (entry : Entry) :
    Follows config (define entry) (define entry) := by
  intro scopes printed others a next succeeds
  cases succeeds
  refine ⟨scopes.define entry, [], ?_, ?_⟩
  · rw [List.append_nil]
    rfl
  · rw [List.append_nil]
    rfl

theorem print (value : Value) :
    Follows config
      (modify fun machine =>
        { machine with printed := machine.printed ++ [value] })
      (modify fun machine =>
        { machine with printed := machine.printed ++ [value] }) := by
  intro scopes printed others a next succeeds
  cases succeeds
  exact ⟨scopes, [value], rfl, rfl⟩

/-- Evaluating a program, with failures reported wherever it stands. -/
theorem evaluate
    (code : Code)
    (place : Constant)
    (position elsewhere : Position) :
    Follows config
      (fun machine =>
        match Machine.evaluate code machine with
        | .ok value machine => .ok value machine
        | .error failure machine =>
            .error ⟨.constantFailed place failure, position⟩ machine)
      (fun machine =>
        match Machine.evaluate code machine with
        | .ok value machine => .ok value machine
        | .error failure machine =>
            .error ⟨.constantFailed place failure, elsewhere⟩ machine) := by
  intro scopes printed others value next succeeds
  cases outcome : Machine.evaluate code (building config scopes printed) with
  | ok result later =>
      simp only [outcome] at succeeds
      cases succeeds
      obtain ⟨rfl, same⟩ := evaluate_building outcome
      refine ⟨scopes, [], ?_, ?_⟩
      · rw [List.append_nil]
      · simp only [same others, List.append_nil]
  | error failure later =>
      simp only [outcome] at succeeds
      cases succeeds

end Follows

section Statements

variable
  {config : Config}
  {signatures other : Signatures}
  (grows : signatures.Extends other)
  (move : Position → Position)

include grows

theorem follows_compile (tree : Expr) :
    Follows config (compile signatures tree)
      (compile other (tree.relocate move)) :=
  .ofExcept fun _ compiled => Compile.expr_extends move grows compiled

theorem follows_constant
    (place : Constant)
    (tree : Expr) :
    Follows config (constant signatures place tree)
      (constant other place (tree.relocate move)) :=
  (follows_compile grows move tree).bind fun code => .evaluate code place _ _

theorem follows_constantNumber
    (place : Constant)
    (tree : Expr) :
    Follows config (constantNumber signatures place tree)
      (constantNumber other place (tree.relocate move)) := by
  refine (follows_constant grows move place tree).bind fun value => ?_
  cases value.asDouble? with
  | some x => exact .pure x
  | none => exact .fail _ _ _

theorem follows_constantIndex
    (place : Constant)
    (tree : Expr) :
    Follows config (constantIndex signatures place tree)
      (constantIndex other place (tree.relocate move)) := by
  refine (follows_constant grows move place tree).bind fun value => ?_
  cases (Cell.literal value).index with
  | ok n => exact .pure n
  | error fault => exact .fail _ _ _

theorem follows_points
    (table : String)
    (index : Nat)
    (pairs : List (Expr × Expr)) :
    Follows config (points signatures table index pairs)
      (points other table index (pairs.map (Expr.relocatePair move))) := by
  induction pairs generalizing index with
  | nil => exact .pure []
  | cons pair rest inductionHypothesis =>
      exact (follows_constantNumber grows move _ _).bind fun _ =>
        (follows_constantNumber grows move _ _).bind fun _ =>
          (inductionHypothesis (index + 1)).bind fun _ => .pure _

theorem follows_dimensions
    (array : String)
    (axis : Nat)
    (sizes : List Expr) :
    Follows config (dimensions signatures array axis sizes)
      (dimensions other array axis (sizes.map (Expr.relocate move))) := by
  induction sizes generalizing axis with
  | nil => exact .pure []
  | cons size rest inductionHypothesis =>
      refine (follows_constantIndex grows move _ _).bind fun n => ?_
      split
      · exact .fail _ _ _
      · exact (inductionHypothesis (axis + 1)).bind fun _ => .pure _

theorem follows_indices
    (array : String)
    (axis : Nat)
    (subscripts : List Expr) :
    Follows config (indices signatures array axis subscripts)
      (indices other array axis (subscripts.map (Expr.relocate move))) := by
  induction subscripts generalizing axis with
  | nil => exact .pure []
  | cons index rest inductionHypothesis =>
      exact (follows_constantIndex grows move _ _).bind fun _ =>
        (inductionHypothesis (axis + 1)).bind fun _ => .pure _

theorem follows_compileEach (elements : List Expr) :
    Follows config (compileEach signatures elements)
      (compileEach other (elements.map (Expr.relocate move))) := by
  induction elements with
  | nil => exact .pure []
  | cons first rest inductionHypothesis =>
      exact (follows_compile grows move first).bind fun _ =>
        inductionHypothesis.bind fun _ => .pure _

/-- The sizes of an array are followed by its elements. -/
theorem follows_sized
    (position : Position)
    (name : String)
    (elements : List Expr)
    (dims : List Nat) :
    Follows config
      (do
        match sizeFault? (← get).config dims elements.length with
        | some fault => fail (.invalid name fault) position
        | none =>
            let programs ← compileEach signatures elements
            define ⟨name, .array (Grid.ofElements dims programs)⟩)
      (do
        match sizeFault? (← get).config dims
          (elements.map (Expr.relocate move)).length with
        | some fault => fail (.invalid name fault) (move position)
        | none =>
            let programs ← compileEach other (elements.map (Expr.relocate move))
            define ⟨name, .array (Grid.ofElements dims programs)⟩) := by
  refine .ofGet fun scopes printed others => ?_
  simp only [building, ofConfig, List.length_map]
  split
  · exact .fail _ _ _
  · exact (follows_compileEach grows move elements).bind fun _ => .define _

theorem follows_array
    (position : Position)
    (name : String)
    (sizes : Option (List Expr))
    (elements : List Expr) :
    Follows config (array signatures position name sizes elements)
      (array other (move position) name
        (sizes.map (List.map (Expr.relocate move)))
        (elements.map (Expr.relocate move))) := by
  cases sizes with
  | some sizes =>
      exact (follows_dimensions grows move name 0 sizes).bind
        (follows_sized grows move position name elements)
  | none =>
      have counted :
          Follows config (pure [elements.length])
            (pure [(elements.map (Expr.relocate move)).length]) := by
        rw [List.length_map]
        exact .pure _
      exact counted.bind (follows_sized grows move position name elements)

omit grows in
theorem follows_assignedArray
    (name : String)
    (position : Position) :
    Follows config (assignedArray name position)
      (assignedArray name (move position)) := by
  refine .ofGet fun scopes printed others => ?_
  simp only [building, ofConfig]
  cases scopes.globals.get? name with
  | none => exact .fail _ _ _
  | some entry =>
      simp only
      cases entry.grid? with
      | none => exact .fail _ _ _
      | some grid => exact .pure grid

theorem follows_assign
    (position : Position)
    (name : String)
    (subscripts : List Expr)
    (value : Expr) :
    Follows config (assign signatures position name subscripts value)
      (assign other (move position) name (subscripts.map (Expr.relocate move))
        (value.relocate move)) := by
  refine (follows_assignedArray move name position).bind fun grid => ?_
  rw [List.length_map]
  split
  · refine (follows_indices grows move name 0 subscripts).bind fun tuple =>
      (follows_compile grows move value).bind fun code => ?_
    cases grid.set tuple code with
    | ok changed => exact .define _
    | error fault => exact .fail _ _ _
  · exact .fail _ _ _

/-- One statement. -/
theorem follows_statement (source : Statement) :
    Follows config (statement signatures source)
      (statement other (source.relocate move)) := by
  obtain ⟨position, action⟩ := source
  cases action with
  | scalar name value =>
      exact (follows_compile grows move value).bind fun _ => .define _
  | function name params body =>
      exact Follows.bind
        (.ofExcept fun _ compiled => Compile.expr_extends move grows compiled)
        fun _ => .define _
  | curve name pairs =>
      refine (follows_points grows move name 0 pairs).bind fun table => ?_
      cases Curve.ofPoints table with
      | ok curve => exact .define _
      | error fault => exact .fail _ _ _
  | array name sizes elements =>
      exact follows_array grows move position name sizes elements
  | assign name subscripts value =>
      exact follows_assign grows move position name subscripts value
  | print value =>
      exact (follows_constant grows move .printed value).bind .print

/--
Statements that succeed succeed elsewhere and against more declarations, in the
same way.
-/
theorem follows_statements (program : List Statement) :
    Follows config (statements signatures program)
      (statements other (program.map (Statement.relocate move))) := by
  induction program with
  | nil => exact .pure ()
  | cons first rest inductionHypothesis =>
      exact (follows_statement grows move first).bind fun _ =>
        inductionHypothesis

end Statements

/-- Statements leave a machine being built, and what is printed before them. -/
theorem building_of_statements
    {config : Config}
    {signatures : Signatures}
    {program : List Statement}
    {scopes : Scopes}
    {printed : List Value}
    {next : Machine}
    (succeeds : statements signatures program (building config scopes printed) =
      .ok () next) :
    ∃ later log, next = building config later (printed ++ log) := by
  have unmoved : Follows config (statements signatures program) _ :=
    follows_statements (.ofEq fun _ => rfl) id program
  obtain ⟨later, log, isNext, -⟩ :=
    unmoved scopes printed printed () next succeeds
  exact ⟨later, log, isNext⟩

/--
Statements that stand elsewhere, below declarations that come to the same, do
what they do on their own.
-/
theorem statements_relocate_iff
    {signatures other : Signatures}
    (same : ∀ name, signatures.get? name = other.get? name)
    {move back : Position → Position}
    (cancels : back ∘ move = id)
    (program : List Statement)
    (config : Config)
    (scopes later : Scopes)
    (printed others log : List Value) :
    statements signatures program (building config scopes printed) =
        .ok () (building config later (printed ++ log)) ↔
      statements other (program.map (Statement.relocate move))
        (building config scopes others) =
        .ok () (building config later (others ++ log)) := by
  constructor
  · intro succeeds
    exact (follows_statements (.ofEq same) move program).carry succeeds others
  · intro succeeds
    have follows : Follows config _ _ :=
      follows_statements (.ofEq fun name => (same name).symm) back
        (program.map (Statement.relocate move))
    rw [Statement.map_relocate_back cancels] at follows
    exact follows.carry succeeds printed

end Load

end Formulary
