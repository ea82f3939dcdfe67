import Formulary.Proofs.Source.Grammar
import Formulary.Proofs.Stateful

namespace Formulary

open Stateful

/-!
# What the parser reads is a phrase

Whenever a parsing function succeeds, the tokens it has consumed form a phrase
of its category, and the tree it gives is the tree of that phrase.
-/

namespace Cursor

theorem peek?_eq_some_iff
    {cursor : Cursor}
    {token : Token} :
    cursor.peek? = some token ↔ ∃ position rest,
      cursor.rest = ⟨position, token⟩ :: rest := by
  obtain ⟨tokens, last⟩ := cursor
  cases tokens with
  | nil => simp [peek?]
  | cons first rest =>
      obtain ⟨position, item⟩ := first
      simp [peek?]

theorem at?_eq_true_iff
    {cursor : Cursor}
    {mark : Mark} :
    cursor.at? mark = true ↔
      ∃ position rest, cursor.rest = ⟨position, .mark mark⟩ :: rest := by
  rw [at?, decide_eq_true_eq, peek?_eq_some_iff]

theorem advance_rest
    {cursor : Cursor}
    {first : Located Token}
    {rest : List (Located Token)}
    (shape : cursor.rest = first :: rest) :
    cursor.advance.rest = rest := by
  simp [advance, shape]

theorem here_eq
    {cursor : Cursor}
    {position : Position}
    {token : Token}
    {rest : List (Located Token)}
    (shape : cursor.rest = ⟨position, token⟩ :: rest) :
    cursor.here = position := by
  simp [here, shape]

theorem not_unexpected
    {cursor : Cursor}
    {expected : Expected}
    {a : α} :
    cursor.unexpected expected ≠ .ok a := by
  unfold unexpected fail
  split <;> simp

/-- A mark that is required has been consumed. -/
theorem of_expect
    {cursor next : Cursor}
    {mark : Mark}
    {expected : Expected}
    (succeeds : cursor.expect mark expected = .ok next) :
    ∃ position, cursor.rest = ⟨position, .mark mark⟩ :: next.rest := by
  unfold expect at succeeds
  split at succeeds
  · rename_i present
    obtain ⟨position, rest, shape⟩ := at?_eq_true_iff.mp present
    cases succeeds
    exact ⟨position, by rw [shape, advance_rest shape]⟩
  · exact (not_unexpected succeeds).elim

/-- A mark that may be skipped is left out or has been consumed. -/
theorem skip_rest
    (cursor : Cursor)
    (mark : Mark) :
    cursor.rest = (cursor.skip mark).rest ∨
      ∃ position,
        cursor.rest = ⟨position, .mark mark⟩ :: (cursor.skip mark).rest := by
  unfold skip
  split
  · rename_i present
    obtain ⟨position, rest, shape⟩ := at?_eq_true_iff.mp present
    exact .inr ⟨position, by rw [shape, advance_rest shape]⟩
  · exact .inl rfl

/-- A name that is required has been consumed. -/
theorem of_expectName
    {cursor next : Cursor}
    {name : String}
    {expected : Expected}
    (succeeds : cursor.expectName expected = .ok (name, next)) :
    ∃ position, cursor.rest = ⟨position, .name name⟩ :: next.rest := by
  unfold expectName at succeeds
  split at succeeds
  · rename_i present
    obtain ⟨position, rest, shape⟩ := peek?_eq_some_iff.mp present
    cases succeeds
    exact ⟨position, by rw [shape, advance_rest shape]⟩
  · exact (not_unexpected succeeds).elim

theorem operator?_eq_some_iff
    {cursor : Cursor}
    {belongs : BinaryOp → Bool}
    {op : BinaryOp} :
    cursor.operator? belongs = some op ↔
      belongs op = true ∧ ∃ position rest,
        cursor.rest = ⟨position, .operator op⟩ :: rest := by
  unfold operator?
  constructor
  · intro found
    split at found
    · rename_i other present
      split at found
      · rename_i member
        cases found
        exact ⟨member, peek?_eq_some_iff.mp present⟩
      · cases found
    · cases found
  · rintro ⟨member, present⟩
    rw [peek?_eq_some_iff.mpr present]
    simp [member]

end Cursor

namespace Grammar

/-- The tokens between two cursors form a phrase of the given kind. -/
def Reads (phrase : Tokens → α → Prop) (cursor next : Cursor) (a : α) : Prop :=
  ∃ tokens, cursor.rest = tokens ++ next.rest ∧ phrase tokens a

/--
The tokens between two cursors continue a phrase that has been read before.
-/
def Continues
    (category : Category)
    (left : Expr)
    (cursor next : Cursor)
    (tree : Expr) :
    Prop :=
  ∃ tokens, cursor.rest = tokens ++ next.rest ∧
    ∀ before, Derives category before [left] →
      Derives category (before ++ tokens) [tree]

/-- Every parsing function of a given recursion bound reads phrases. -/
structure Sound (depth : Nat) : Prop where
  expression :
    ∀ {cursor next : Cursor} {tree : Expr},
      Parse.expression depth cursor = .ok (tree, next) →
        Reads (Derives .expression) cursor next [tree]
  sum :
    ∀ {cursor next : Cursor} {tree : Expr},
      Parse.sum depth cursor = .ok (tree, next) →
        Reads (Derives .sum) cursor next [tree]
  sumTail :
    ∀ {left : Expr} {cursor next : Cursor} {tree : Expr},
      Parse.sumTail depth left cursor = .ok (tree, next) →
        Continues .sum left cursor next tree
  term :
    ∀ {cursor next : Cursor} {tree : Expr},
      Parse.term depth cursor = .ok (tree, next) →
        Reads (Derives .term) cursor next [tree]
  termTail :
    ∀ {left : Expr} {cursor next : Cursor} {tree : Expr},
      Parse.termTail depth left cursor = .ok (tree, next) →
        Continues .term left cursor next tree
  power :
    ∀ {cursor next : Cursor} {tree : Expr},
      Parse.power depth cursor = .ok (tree, next) →
        Reads (Derives .power) cursor next [tree]
  unary :
    ∀ {cursor next : Cursor} {tree : Expr},
      Parse.unary depth cursor = .ok (tree, next) →
        Reads (Derives .unary) cursor next [tree]
  primary :
    ∀ {cursor next : Cursor} {tree : Expr},
      Parse.primary depth cursor = .ok (tree, next) →
        Reads (Derives .primary) cursor next [tree]
  arguments :
    ∀ {cursor next : Cursor} {items : List Expr} {first : Located Token}
      {rest : Tokens},
      Parse.arguments depth cursor = .ok (items, next) →
        cursor.rest = first :: rest →
        ∃ closing,
          (items = [] ∧ rest = ⟨closing, .mark .closeParen⟩ :: next.rest) ∨
            ∃ tokens,
              rest = tokens ++ ⟨closing, .mark .closeParen⟩ :: next.rest ∧
              Derives .list tokens items
  expressions :
    ∀ {cursor next : Cursor} {items : List Expr},
      Parse.expressions depth cursor = .ok (items, next) →
        Reads (Derives .list) cursor next items
  subscripts :
    ∀ {cursor next : Cursor} {indices : List Expr},
      Parse.subscripts depth cursor = .ok (indices, next) →
        (indices = [] ∧ next = cursor ∧ cursor.at? .openBracket = false) ∨
          Reads (Derives .subscripts) cursor next indices

/-- A bound of zero reads nothing. -/
theorem sound_zero : Sound 0 where
  expression succeeds := (Cursor.not_unexpected succeeds).elim
  sum succeeds := (Cursor.not_unexpected succeeds).elim
  sumTail succeeds := (Cursor.not_unexpected succeeds).elim
  term succeeds := (Cursor.not_unexpected succeeds).elim
  termTail succeeds := (Cursor.not_unexpected succeeds).elim
  power succeeds := (Cursor.not_unexpected succeeds).elim
  unary succeeds := (Cursor.not_unexpected succeeds).elim
  primary succeeds := (Cursor.not_unexpected succeeds).elim
  arguments succeeds _ := (Cursor.not_unexpected succeeds).elim
  expressions succeeds := (Cursor.not_unexpected succeeds).elim
  subscripts succeeds := (Cursor.not_unexpected succeeds).elim

section Step

variable {depth : Nat} (sound : Sound depth)
include sound

theorem expression_reads
    {cursor next : Cursor}
    {tree : Expr}
    (succeeds : Parse.expression (depth + 1) cursor = .ok (tree, next)) :
    Reads (Derives .expression) cursor next [tree] := by
  obtain ⟨⟨left, afterLeft⟩, leftSucceeds, rest⟩ :=
    except_bind_eq_ok.mp succeeds
  obtain ⟨before, leftShape, leftDerives⟩ := sound.sum leftSucceeds
  simp only at rest
  split at rest
  · cases rest
    exact ⟨before, leftShape, .oneSum leftDerives⟩
  · rename_i op present
    obtain ⟨comparison, position, following, shape⟩ :=
      Cursor.operator?_eq_some_iff.mp present
    obtain ⟨⟨right, afterRight⟩, rightSucceeds, last⟩ :=
      except_bind_eq_ok.mp rest
    obtain ⟨after, rightShape, rightDerives⟩ := sound.sum rightSucceeds
    rw [Cursor.advance_rest shape] at rightShape
    simp only at last
    split at last
    · cases last
    · cases last
      refine ⟨before ++ ⟨position, .operator op⟩ :: after, ?_,
        .comparison comparison leftDerives rightDerives⟩
      rw [leftShape, shape, rightShape, List.append_assoc, List.cons_append]

theorem sum_reads
    {cursor next : Cursor}
    {tree : Expr}
    (succeeds : Parse.sum (depth + 1) cursor = .ok (tree, next)) :
    Reads (Derives .sum) cursor next [tree] := by
  obtain ⟨⟨left, afterLeft⟩, leftSucceeds, rest⟩ :=
    except_bind_eq_ok.mp succeeds
  obtain ⟨before, leftShape, leftDerives⟩ := sound.term leftSucceeds
  obtain ⟨after, restShape, grows⟩ := sound.sumTail rest
  exact ⟨before ++ after, by rw [leftShape, restShape, List.append_assoc],
    grows before (.oneTerm leftDerives)⟩

theorem sumTail_continues
    {left : Expr}
    {cursor next : Cursor}
    {tree : Expr}
    (succeeds : Parse.sumTail (depth + 1) left cursor = .ok (tree, next)) :
    Continues .sum left cursor next tree := by
  simp only [Parse.sumTail] at succeeds
  split at succeeds
  · cases succeeds
    exact ⟨[], rfl, fun before derives => by simpa using derives⟩
  · rename_i op present
    obtain ⟨additive, position, following, shape⟩ :=
      Cursor.operator?_eq_some_iff.mp present
    obtain ⟨⟨right, afterRight⟩, rightSucceeds, rest⟩ :=
      except_bind_eq_ok.mp succeeds
    obtain ⟨after, rightShape, rightDerives⟩ := sound.term rightSucceeds
    rw [Cursor.advance_rest shape] at rightShape
    obtain ⟨later, restShape, grows⟩ := sound.sumTail rest
    refine ⟨⟨position, .operator op⟩ :: after ++ later, ?_, ?_⟩
    · rw [shape, rightShape, restShape]
      simp
    · intro before derives
      have joined := grows (before ++ ⟨position, .operator op⟩ :: after)
        (.moreTerms additive derives rightDerives)
      rwa [List.append_assoc] at joined

theorem term_reads
    {cursor next : Cursor}
    {tree : Expr}
    (succeeds : Parse.term (depth + 1) cursor = .ok (tree, next)) :
    Reads (Derives .term) cursor next [tree] := by
  obtain ⟨⟨left, afterLeft⟩, leftSucceeds, rest⟩ :=
    except_bind_eq_ok.mp succeeds
  obtain ⟨before, leftShape, leftDerives⟩ := sound.power leftSucceeds
  obtain ⟨after, restShape, grows⟩ := sound.termTail rest
  exact ⟨before ++ after, by rw [leftShape, restShape, List.append_assoc],
    grows before (.onePower leftDerives)⟩

theorem termTail_continues
    {left : Expr}
    {cursor next : Cursor}
    {tree : Expr}
    (succeeds : Parse.termTail (depth + 1) left cursor = .ok (tree, next)) :
    Continues .term left cursor next tree := by
  simp only [Parse.termTail] at succeeds
  split at succeeds
  · cases succeeds
    exact ⟨[], rfl, fun before derives => by simpa using derives⟩
  · rename_i op present
    obtain ⟨multiplicative, position, following, shape⟩ :=
      Cursor.operator?_eq_some_iff.mp present
    obtain ⟨⟨right, afterRight⟩, rightSucceeds, rest⟩ :=
      except_bind_eq_ok.mp succeeds
    obtain ⟨after, rightShape, rightDerives⟩ := sound.power rightSucceeds
    rw [Cursor.advance_rest shape] at rightShape
    obtain ⟨later, restShape, grows⟩ := sound.termTail rest
    refine ⟨⟨position, .operator op⟩ :: after ++ later, ?_, ?_⟩
    · rw [shape, rightShape, restShape]
      simp
    · intro before derives
      have joined := grows (before ++ ⟨position, .operator op⟩ :: after)
        (.morePowers multiplicative derives rightDerives)
      rwa [List.append_assoc] at joined

theorem power_reads
    {cursor next : Cursor}
    {tree : Expr}
    (succeeds : Parse.power (depth + 1) cursor = .ok (tree, next)) :
    Reads (Derives .power) cursor next [tree] := by
  obtain ⟨⟨base, afterBase⟩, baseSucceeds, rest⟩ :=
    except_bind_eq_ok.mp succeeds
  obtain ⟨before, baseShape, baseDerives⟩ := sound.unary baseSucceeds
  simp only at rest
  split at rest
  · cases rest
    exact ⟨before, baseShape, .oneUnary baseDerives⟩
  · rename_i op present
    obtain ⟨isPower, position, following, shape⟩ :=
      Cursor.operator?_eq_some_iff.mp present
    obtain rfl : op = .pow := by
      simpa [Parse.isPower] using isPower
    obtain ⟨⟨exponent, afterExponent⟩, exponentSucceeds, last⟩ :=
      except_bind_eq_ok.mp rest
    obtain ⟨after, exponentShape, exponentDerives⟩ :=
      sound.power exponentSucceeds
    rw [Cursor.advance_rest shape] at exponentShape
    cases last
    refine ⟨before ++ ⟨position, .operator .pow⟩ :: after, ?_,
      .raised baseDerives exponentDerives⟩
    rw [baseShape, shape, exponentShape, List.append_assoc, List.cons_append]

theorem unary_reads
    {cursor next : Cursor}
    {tree : Expr}
    (succeeds : Parse.unary (depth + 1) cursor = .ok (tree, next)) :
    Reads (Derives .unary) cursor next [tree] := by
  simp only [Parse.unary] at succeeds
  split at succeeds
  · rename_i present
    obtain ⟨position, following, shape⟩ := Cursor.peek?_eq_some_iff.mp present
    obtain ⟨⟨operand, afterOperand⟩, operandSucceeds, last⟩ :=
      except_bind_eq_ok.mp succeeds
    obtain ⟨tokens, operandShape, operandDerives⟩ := sound.unary operandSucceeds
    rw [Cursor.advance_rest shape] at operandShape
    cases last
    rw [Cursor.here_eq shape]
    exact ⟨⟨position, .operator .sub⟩ :: tokens,
      by rw [shape, operandShape, List.cons_append], .negated operandDerives⟩
  · obtain ⟨tokens, shape, derives⟩ := sound.primary succeeds
    exact ⟨tokens, shape, .onePrimary derives⟩

theorem primary_reads
    {cursor next : Cursor}
    {tree : Expr}
    (succeeds : Parse.primary (depth + 1) cursor = .ok (tree, next)) :
    Reads (Derives .primary) cursor next [tree] := by
  simp only [Parse.primary] at succeeds
  split at succeeds
  · rename_i value present
    obtain ⟨position, following, shape⟩ := Cursor.peek?_eq_some_iff.mp present
    cases succeeds
    rw [Cursor.here_eq shape]
    exact ⟨[⟨position, .literal value⟩],
      by rw [shape, Cursor.advance_rest shape]; rfl, .literal⟩
  · rename_i present
    obtain ⟨opening, following, shape⟩ := Cursor.peek?_eq_some_iff.mp present
    obtain ⟨⟨inner, afterInner⟩, innerSucceeds, rest⟩ :=
      except_bind_eq_ok.mp succeeds
    obtain ⟨tokens, innerShape, innerDerives⟩ := sound.expression innerSucceeds
    rw [Cursor.advance_rest shape] at innerShape
    obtain ⟨afterClose, closes, last⟩ := except_bind_eq_ok.mp rest
    obtain ⟨closing, closeShape⟩ := Cursor.of_expect closes
    cases last
    refine ⟨⟨opening, .mark .openParen⟩ :: tokens ++
      [⟨closing, .mark .closeParen⟩], ?_, .parenthesis innerDerives⟩
    rw [shape, innerShape, closeShape]
    simp
  · rename_i spelling present
    obtain ⟨position, following, shape⟩ := Cursor.peek?_eq_some_iff.mp present
    have nextShape := Cursor.advance_rest shape
    rw [Cursor.here_eq shape] at succeeds
    split at succeeds
    · rename_i opens
      obtain ⟨opening, inside, openShape⟩ := Cursor.peek?_eq_some_iff.mp opens
      obtain ⟨⟨items, afterItems⟩, itemsSucceed, last⟩ :=
        except_bind_eq_ok.mp succeeds
      obtain ⟨closing, ⟨rfl, noItems⟩ | ⟨tokens, insideShape, itemsDerive⟩⟩ :=
        sound.arguments itemsSucceed openShape
      · cases last
        refine ⟨[⟨position, .name spelling⟩, ⟨opening, .mark .openParen⟩,
          ⟨closing, .mark .closeParen⟩], ?_, .emptyCall⟩
        rw [shape, ← nextShape, openShape, noItems]
        rfl
      · cases last
        refine ⟨⟨position, .name spelling⟩ ::
          ⟨opening, .mark .openParen⟩ :: tokens
          ++ [⟨closing, .mark .closeParen⟩], ?_, .call itemsDerive⟩
        rw [shape, ← nextShape, openShape, insideShape]
        simp
    · rename_i opens
      obtain ⟨⟨indices, afterIndices⟩, indicesSucceed, last⟩ :=
        except_bind_eq_ok.mp succeeds
      rcases sound.subscripts indicesSucceed with
          ⟨-, -, closed⟩ | ⟨tokens, inner, derives⟩
      · simp [Cursor.at?, opens] at closed
      · cases last
        refine ⟨⟨position, .name spelling⟩ :: tokens, ?_, .element derives⟩
        rw [shape, ← nextShape, inner, List.cons_append]
    · cases succeeds
      exact ⟨[⟨position, .name spelling⟩], by rw [shape, nextShape]; rfl, .name⟩
  · exact (Cursor.not_unexpected succeeds).elim

theorem arguments_read
    {cursor next : Cursor}
    {items : List Expr}
    {first : Located Token}
    {rest : Tokens}
    (succeeds : Parse.arguments (depth + 1) cursor = .ok (items, next))
    (shape : cursor.rest = first :: rest) :
    ∃ closing,
      (items = [] ∧ rest = ⟨closing, .mark .closeParen⟩ :: next.rest) ∨
        ∃ tokens, rest = tokens ++ ⟨closing, .mark .closeParen⟩ :: next.rest ∧
          Derives .list tokens items := by
  have nextShape := Cursor.advance_rest shape
  simp only [Parse.arguments] at succeeds
  split at succeeds
  · rename_i closes
    obtain ⟨closing, following, closeShape⟩ := Cursor.at?_eq_true_iff.mp closes
    cases succeeds
    refine ⟨closing, .inl ⟨rfl, ?_⟩⟩
    rw [← nextShape, closeShape, Cursor.advance_rest closeShape]
  · obtain ⟨⟨list, afterList⟩, listSucceeds, more⟩ :=
      except_bind_eq_ok.mp succeeds
    obtain ⟨tokens, listShape, listDerives⟩ := sound.expressions listSucceeds
    obtain ⟨afterClose, closes, last⟩ := except_bind_eq_ok.mp more
    obtain ⟨closing, closeShape⟩ := Cursor.of_expect closes
    cases last
    exact ⟨closing,
      .inr ⟨tokens, by rw [← nextShape, listShape, closeShape], listDerives⟩⟩

theorem expressions_read
    {cursor next : Cursor}
    {items : List Expr}
    (succeeds : Parse.expressions (depth + 1) cursor = .ok (items, next)) :
    Reads (Derives .list) cursor next items := by
  obtain ⟨⟨item, afterItem⟩, itemSucceeds, rest⟩ :=
    except_bind_eq_ok.mp succeeds
  obtain ⟨tokens, itemShape, itemDerives⟩ := sound.expression itemSucceeds
  simp only at rest
  split at rest
  · rename_i comma
    obtain ⟨position, following, shape⟩ := Cursor.at?_eq_true_iff.mp comma
    obtain ⟨⟨others, afterOthers⟩, othersSucceed, last⟩ :=
      except_bind_eq_ok.mp rest
    obtain ⟨later, othersShape, othersDerive⟩ := sound.expressions othersSucceed
    rw [Cursor.advance_rest shape] at othersShape
    cases last
    refine ⟨tokens ++ ⟨position, .mark .comma⟩ :: later, ?_,
      .moreItems itemDerives othersDerive⟩
    rw [itemShape, shape, othersShape]
    simp
  · cases rest
    exact ⟨tokens, itemShape, .lastItem itemDerives⟩

theorem subscripts_read
    {cursor next : Cursor}
    {indices : List Expr}
    (succeeds : Parse.subscripts (depth + 1) cursor = .ok (indices, next)) :
    (indices = [] ∧ next = cursor ∧ cursor.at? .openBracket = false) ∨
      Reads (Derives .subscripts) cursor next indices := by
  simp only [Parse.subscripts] at succeeds
  split at succeeds
  · rename_i opens
    obtain ⟨opening, following, shape⟩ := Cursor.at?_eq_true_iff.mp opens
    obtain ⟨⟨group, afterGroup⟩, groupSucceeds, rest⟩ :=
      except_bind_eq_ok.mp succeeds
    obtain ⟨tokens, groupShape, groupDerives⟩ := sound.expressions groupSucceeds
    rw [Cursor.advance_rest shape] at groupShape
    obtain ⟨afterClose, closes, more⟩ := except_bind_eq_ok.mp rest
    obtain ⟨closing, closeShape⟩ := Cursor.of_expect closes
    obtain ⟨⟨groups, afterGroups⟩, groupsSucceed, last⟩ :=
      except_bind_eq_ok.mp more
    cases last
    rcases sound.subscripts groupsSucceed with
        ⟨rfl, rfl, -⟩ | ⟨later, laterShape, groupsDerive⟩
    · refine .inr ⟨⟨opening, .mark .openBracket⟩ :: tokens ++
        [⟨closing, .mark .closeBracket⟩],
        ?_, by simpa using Derives.lastGroup groupDerives⟩
      rw [shape, groupShape, closeShape]
      simp
    · refine .inr ⟨⟨opening, .mark .openBracket⟩ :: tokens
        ++ ⟨closing, .mark .closeBracket⟩ :: later, ?_,
          .moreGroups groupDerives groupsDerive⟩
      rw [shape, groupShape, closeShape, laterShape]
      simp
  · rename_i absent
    cases succeeds
    exact .inl ⟨rfl, rfl, by simpa using absent⟩

end Step

/-- Parsing functions of every recursion bound read phrases. -/
theorem sound (depth : Nat) : Sound depth := by
  induction depth with
  | zero => exact sound_zero
  | succ depth inductionHypothesis =>
      exact {
        expression := expression_reads inductionHypothesis
        sum := sum_reads inductionHypothesis
        sumTail := sumTail_continues inductionHypothesis
        term := term_reads inductionHypothesis
        termTail := termTail_continues inductionHypothesis
        power := power_reads inductionHypothesis
        unary := unary_reads inductionHypothesis
        primary := primary_reads inductionHypothesis
        arguments := arguments_read inductionHypothesis
        expressions := expressions_read inductionHypothesis
        subscripts := subscripts_read inductionHypothesis }

end Grammar

end Formulary
