import Formulary.Proofs.Load.Restated

namespace Formulary

/-!
# Entries that come from source text

Every program of a loaded source is compiled from an expression of that source,
under the signatures of the whole source.  With well-formedness this is all an
entry needs to be declared again.
-/

namespace Token

/--
A text has no more tokens than characters, beside the one that marks its end.
-/
theorem length_scanFrom_le
    {position : Position}
    {text : List Char}
    {tokens : List (Located Token)}
    (scanned : scanFrom position text = .ok tokens) :
    tokens.length ≤ text.length + 1 := by
  induction position, text using scanFrom.induct generalizing tokens with
  | case1 position =>
      rw [scanFrom] at scanned
      cases scanned
      simp
  | case2 position c rest blank inductionHypothesis =>
      rw [scanFrom, if_pos blank] at scanned
      have shorter := inductionHypothesis scanned
      simp only [List.length_cons]
      omega
  | case3 position c rest visible issue fails =>
      rw [scanFrom, if_neg visible, fails] at scanned
      cases scanned
  | case4 position c rest visible lexeme reads next others othersScan =>
      rename_i inductionHypothesis
      rw [scanFrom, if_neg visible, reads] at scanned
      simp only [next] at othersScan
      simp only [othersScan] at scanned
      cases scanned
      have shorter := inductionHypothesis othersScan
      simp only [List.length_cons, List.length_drop] at shorter ⊢
      omega
  | case5 position c rest visible lexeme reads next error fails =>
      rw [scanFrom, if_neg visible, reads] at scanned
      simp only [next] at fails
      simp only [fails] at scanned
      cases scanned

end Token

namespace Grammar

/-- An array has fewer elements than tokens. -/
theorem OneStatement.length_elements_lt
    {tokens : Tokens}
    {statement : Statement}
    (derives : OneStatement tokens statement)
    {name : String}
    {sizes : Option (List Expr)}
    {elements : List Expr}
    (isArray : statement.action = .array name sizes elements) :
    elements.length + 1 < tokens.length := by
  cases derives with
  | print => cases isArray
  | @named first tokens action semicolon namedDerives =>
      obtain rfl : action = .array name sizes elements := isArray
      have counted : elements.length < (first :: tokens).length := by
        cases namedDerives with
        | braced elementsDerive | bracketed elementsDerive
        | sizedBracketed _ elementsDerive | sizedBraced _ elementsDerive =>
            have few := elementsDerive.length_le
            simp only [List.append_eq, List.length_cons,
              List.length_append] at few ⊢
            omega
      simp only [List.length_append, List.length_cons,
        List.length_nil] at counted ⊢
      omega

end Grammar

namespace Machine

/-- An array has fewer elements than its source has characters. -/
theorem length_elements_lt_of_parse
    {file source : String}
    {program : List Statement}
    (parsed : parse file source = .ok program)
    {statement : Statement}
    (member : statement ∈ program)
    {name : String}
    {sizes : Option (List Expr)}
    {elements : List Expr}
    (isArray : statement.action = .array name sizes elements) :
    elements.length < source.length := by
  obtain ⟨tokens, scanned, built⟩ := parse_eq_ok_iff.mp parsed
  obtain ⟨phrase, within, derives⟩ :=
    (Grammar.program_of_parse built).infix_of_mem member
  have few := derives.length_elements_lt isArray
  have inText := Token.length_scanFrom_le scanned
  have shorter : phrase.length ≤ tokens.length :=
    within.length_le.trans (List.length_filter_le _ _)
  rw [String.length_toList] at inText
  omega

end Machine

/-- An entry whose programs are compiled from expressions of source text. -/
structure Entry.Sourced (signatures : Signatures) (entry : Entry) : Prop where
  named : Lexeme.IsName entry.name
  paramsNamed : ∀ param ∈ entry.params, Lexeme.IsName param
  stored : ∀ code ∈ entry.programs, Compile.Stored signatures entry.params code
  small :
    ∀ grid, entry.definition = .array grid → ∀ size ∈ grid.dims, size < 2 ^ 63

/-- An entry comes from source text under all signatures that agree. -/
theorem Entry.Sourced.congr
    {signatures other : Signatures}
    (same : ∀ name, signatures.get? name = other.get? name)
    {entry : Entry}
    (sourced : entry.Sourced signatures) :
    entry.Sourced other where
  named := sourced.named
  paramsNamed := sourced.paramsNamed
  stored := by
    intro code isProgram
    obtain ⟨tree, lexical, compiled⟩ := sourced.stored code isProgram
    exact ⟨tree, lexical, Compile.expr_congr same tree ▸ compiled⟩
  small := sourced.small

theorem Entry.Sourced.small_reread
    {signatures : Signatures}
    {entry : Entry}
    (sourced : entry.Sourced signatures) :
    ∀ grid, entry.reread.definition = .array grid → ∀ size ∈ grid.dims,
      size < 2 ^ 63 := by
  obtain ⟨name, definition⟩ := entry
  intro grid isArray
  cases definition with
  | scalar | function | curve => cases isArray
  | array original =>
      cases isArray
      exact sourced.small original rfl

theorem Compile.stored_blank
    (signatures : Signatures) :
    Stored signatures [] Grid.blank := by
  have lexical : (Expr.literal Position.start (.int 0)).Lexical := by
    intro word member
    obtain rfl := List.mem_singleton.mp member
    exact (by decide : 0 ≤ (0 : Int64).toInt)
  exact ⟨.literal Position.start (.int 0), lexical, rfl⟩

namespace Load

/--
The entry a statement binds comes from source text, when the entries before it
do.
-/
theorem Effect.sourced
    {signatures : Signatures}
    {config : Config}
    {action : Action}
    {before after : Bindings}
    (effect : Effect signatures config action before after)
    (wellShaped : action.WellShaped)
    (lexical : ∀ tree ∈ action.stored, tree.Lexical)
    (few :
      ∀ {name sizes elements},
        action = .array name sizes elements → elements.length < 2 ^ 63)
    (sourced : ∀ entry ∈ before.entries, entry.Sourced signatures) :
    ∀ entry ∈ after.entries, entry.Sourced signatures := by
  cases effect with
  | @scalar globals name value code compiled =>
      refine Bindings.forall_mem_insert ?_ sourced
      exact
        { named := wellShaped
          paramsNamed := by simp [Entry.params]
          stored := by
            intro program isProgram
            obtain rfl := List.mem_singleton.mp isProgram
            exact ⟨value, lexical value (List.mem_singleton_self _), compiled⟩
          small := by rintro _ ⟨⟩ }
  | @function globals name params body code compiled =>
      refine Bindings.forall_mem_insert ?_ sourced
      exact
        { named := wellShaped.1
          paramsNamed := wellShaped.2.2
          stored := by
            intro program isProgram
            obtain rfl := List.mem_singleton.mp isProgram
            exact ⟨body, lexical body (List.mem_singleton_self _), compiled⟩
          small := by rintro _ ⟨⟩ }
  | @curve globals name pairs table curve read accepted =>
      refine Bindings.forall_mem_insert ?_ sourced
      exact
        { named := wellShaped
          paramsNamed := by simp [Entry.params]
          stored := by
            intro program isProgram
            cases isProgram
          small := by rintro _ ⟨⟩ }
  | @array globals name sizes elements dims programs sized fits compiled =>
      refine Bindings.forall_mem_insert ?_ sourced
      exact
        { named := wellShaped.1
          paramsNamed := by simp [Entry.params]
          stored := by
            intro program isProgram
            rcases Grid.mem_ofElements isProgram with isWritten | rfl
            · obtain ⟨element, isElement, compiles⟩ :=
                exists_of_mem_programs compiled isWritten
              exact ⟨element, lexical element isElement, compiles⟩
            · exact Compile.stored_blank signatures
          small := by
            rintro _ ⟨⟩ size member
            cases sizes with
            | some sizes => exact (sized.2 size member).2
            | none =>
                obtain rfl : dims = [elements.length] := sized
                obtain rfl := List.mem_singleton.mp member
                exact few rfl }
  | @assign globals name subscripts value grid changed tuple code found
        compiled set =>
      refine Bindings.forall_mem_insert ?_ sourced
      have old := sourced _ (Bindings.mem_of_get? found).1
      obtain ⟨offset, -, rfl⟩ := Grid.of_set set
      exact
        { named := old.named
          paramsNamed := by simp [Entry.params]
          stored := by
            intro program isProgram
            simp only [Entry.programs, Array.toList_setIfInBounds] at isProgram
            rcases List.mem_or_eq_of_mem_set isProgram with isOld | rfl
            · exact old.stored program isOld
            · exact ⟨value, lexical value (List.mem_singleton_self _), compiled⟩
          small := by
            rintro _ ⟨⟩
            exact old.small grid rfl }
  | print => exact sourced

end Load

/-- A well-formed entry from source text can be declared again. -/
theorem Entry.Sourced.declarable
    {signatures : Signatures}
    {config : Config}
    {known : String → Prop}
    {entry : Entry}
    (sourced : entry.Sourced signatures)
    (wellFormed : entry.WellFormed config known) :
    entry.Declarable signatures := by
  obtain ⟨name, definition⟩ := entry
  have shaped := wellFormed.shaped
  refine ⟨sourced.named, ?_⟩
  cases definition with
  | scalar code => exact sourced.stored code (List.mem_singleton_self _)
  | function params body =>
      exact ⟨⟨shaped.1, sourced.paramsNamed⟩,
        sourced.stored body (List.mem_singleton_self _)⟩
  | curve table => exact ⟨shaped.nonempty, shaped.finite⟩
  | array grid =>
      have grids : grid.WellFormed config := shaped
      have dimsGiven : grid.dims ≠ [] := List.length_pos_iff.mp grids.ranked.1
      have given : grid.elements.toList ≠ [] := by
        have product : 0 < grid.dims.prod :=
          List.prod_pos_iff_forall_pos_nat.mpr grids.positive
        rw [← grids.filled] at product
        exact List.length_pos_iff.mp (by simpa using product)
      exact ⟨⟨dimsGiven, sourced.small grid rfl⟩, given, sourced.stored⟩

end Formulary
