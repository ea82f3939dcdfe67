namespace Formulary.Stateful

/-!
# Computations with state and failure

Evaluations, sessions and loads are computations that change a state and may
fail.  These lemmas take one step of such a computation apart, so that no proof
has to open the monad again.
-/

variable {ε σ α β : Type}

/-- After a step that succeeds, the rest goes on from the state it left. -/
theorem bind_of_ok
    {first : EStateM ε σ α}
    {rest : α → EStateM ε σ β}
    {state next : σ}
    {a : α}
    (succeeds : first state = .ok a next) :
    (first >>= rest) state = rest a next := by
  simp [bind, EStateM.bind, succeeds]

/-- A step that fails ends the computation. -/
theorem bind_of_error
    {first : EStateM ε σ α}
    {rest : α → EStateM ε σ β}
    {state next : σ}
    {error : ε}
    (fails : first state = .error error next) :
    (first >>= rest) state = .error error next := by
  simp [bind, EStateM.bind, fails]

/-- A sequence succeeds exactly when both of its parts do. -/
theorem bind_eq_ok
    {first : EStateM ε σ α}
    {rest : α → EStateM ε σ β}
    {state final : σ}
    {b : β} :
    (first >>= rest) state = .ok b final ↔
      ∃ a next, first state = .ok a next ∧ rest a next = .ok b final := by
  constructor
  · intro succeeds
    cases outcome : first state with
    | ok a next =>
        rw [bind_of_ok outcome] at succeeds
        exact ⟨a, next, rfl, succeeds⟩
    | error error next =>
        rw [bind_of_error outcome] at succeeds
        cases succeeds
  · rintro ⟨a, next, succeeds, restSucceeds⟩
    rw [bind_of_ok succeeds, restSucceeds]

/--
A sequence fails exactly when its first part fails, or succeeds and its second
part fails.
-/
theorem bind_eq_error
    {first : EStateM ε σ α}
    {rest : α → EStateM ε σ β}
    {state final : σ}
    {error : ε} :
    (first >>= rest) state = .error error final ↔
      first state = .error error final ∨
        ∃ a next,
          first state = .ok a next ∧ rest a next = .error error final := by
  constructor
  · intro fails
    cases outcome : first state with
    | ok a next =>
        rw [bind_of_ok outcome] at fails
        exact .inr ⟨a, next, rfl, fails⟩
    | error fault next =>
        rw [bind_of_error outcome] at fails
        cases fails
        exact .inl rfl
  · rintro (fails | ⟨a, next, succeeds, restFails⟩)
    · exact bind_of_error fails
    · rw [bind_of_ok succeeds, restFails]

/-- Reading the state passes it on unchanged. -/
@[simp]
theorem bind_get
    (rest : σ → EStateM ε σ β)
    (state : σ) :
    (get >>= rest) state = rest state state :=
  rfl

/-- Writing the state replaces it. -/
@[simp]
theorem bind_set
    (rest : PUnit → EStateM ε σ β)
    (written state : σ) :
    (set written >>= rest) state = rest ⟨⟩ written :=
  rfl

/-- Changing the state passes the change on. -/
@[simp]
theorem bind_modify
    (change : σ → σ)
    (rest : PUnit → EStateM ε σ β)
    (state : σ) :
    (modify change >>= rest) state = rest ⟨⟩ (change state) :=
  rfl

/-- A result that is known already changes nothing. -/
@[simp]
theorem bind_pure
    (a : α)
    (rest : α → EStateM ε σ β)
    (state : σ) :
    ((pure a : EStateM ε σ α) >>= rest) state = rest a state :=
  rfl

@[simp]
theorem pure_apply
    (a : α)
    (state : σ) :
    (pure a : EStateM ε σ α) state = .ok a state :=
  rfl

@[simp]
theorem throw_apply
    (error : ε)
    (state : σ) :
    (throw error : EStateM ε σ α) state = .error error state :=
  rfl

/-- The state in which a computation ends, whether it fails or not. -/
def final : EStateM.Result ε σ α → σ
  | .ok _ state => state
  | .error _ state => state

/-- A computation that ends in a state related to the one it started in. -/
def Keeps (related : σ → σ → Prop) (action : EStateM ε σ α) : Prop :=
  ∀ state, related state (final (action state))

namespace Keeps

variable {related : σ → σ → Prop}

theorem bind
    (transitive : ∀ {a b c : σ}, related a b → related b c → related a c)
    {action : EStateM ε σ α}
    {rest : α → EStateM ε σ β}
    (first : Keeps related action)
    (second : ∀ a, Keeps related (rest a)) :
    Keeps related (action >>= rest) := by
  intro state
  have start := first state
  cases outcome : action state with
  | ok a next =>
      rw [outcome] at start
      rw [bind_of_ok outcome]
      exact transitive start (second a next)
  | error error next =>
      rw [outcome] at start
      rw [bind_of_error outcome]
      exact start

theorem ofGet
    {rest : σ → EStateM ε σ β}
    (second : ∀ state, Keeps related (rest state)) :
    Keeps related (get >>= rest) :=
  fun state => second state state

end Keeps

/-- A sequence without state succeeds exactly when both of its parts do. -/
theorem except_bind_eq_ok
    {first : Except ε α}
    {rest : α → Except ε β}
    {b : β} :
    (first >>= rest) = .ok b ↔ ∃ a, first = .ok a ∧ rest a = .ok b := by
  cases first with
  | error error => simp [bind, Except.bind]
  | ok a => simp [bind, Except.bind]

/-- Renaming errors changes no result. -/
theorem except_mapError_eq_ok
    {result : Except ε α}
    {wrap : ε → δ}
    {a : α} :
    result.mapError wrap = .ok a ↔ result = .ok a := by
  cases result with
  | ok b =>
      constructor
      · intro same
        cases same
        rfl
      · intro same
        cases same
        rfl
  | error error => exact ⟨nofun, nofun⟩

/-- After a part that succeeds, the rest goes on with its result. -/
@[simp]
theorem except_bind_ok
    (a : α)
    (rest : α → Except ε β) :
    ((.ok a : Except ε α) >>= rest) = rest a :=
  rfl

end Formulary.Stateful
