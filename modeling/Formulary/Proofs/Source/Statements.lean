import Formulary.Proofs.Source.Soundness

namespace Formulary

open Stateful

/-!
# Statements the parser reads

Whenever the parser accepts a list of tokens, they form a program of the
grammar, and the statements it gives are those of that program.
-/

namespace Grammar

/-- Parameter lists are read as such. -/
theorem params_read
    {depth : Nat}
    {cursor next : Cursor}
    {names : List String}
    (succeeds : Parse.params depth cursor = .ok (names, next)) :
    Reads Params cursor next names := by
  induction depth generalizing cursor next names with
  | zero => exact (Cursor.not_unexpected succeeds).elim
  | succ depth inductionHypothesis =>
      obtain ⟨⟨name, afterName⟩, nameSucceeds, rest⟩ :=
        except_bind_eq_ok.mp succeeds
      obtain ⟨position, nameShape⟩ := Cursor.of_expectName nameSucceeds
      simp only at rest
      split at rest
      · rename_i comma
        obtain ⟨commaPosition, following, shape⟩ :=
          Cursor.at?_eq_true_iff.mp comma
        obtain ⟨⟨others, afterOthers⟩, othersSucceed, last⟩ :=
          except_bind_eq_ok.mp rest
        obtain ⟨tokens, othersShape, othersDerive⟩ :=
          inductionHypothesis othersSucceed
        rw [Cursor.advance_rest shape] at othersShape
        cases last
        refine ⟨⟨position, .name name⟩ ::
          ⟨commaPosition, .mark .comma⟩ :: tokens, ?_, .more othersDerive⟩
        rw [nameShape, shape, othersShape, List.cons_append, List.cons_append]
      · cases rest
        exact ⟨[⟨position, .name name⟩], nameShape, .last⟩

/-- Initializers are read up to the mark that closes them. -/
theorem elements_read
    {close : Mark}
    {depth : Nat}
    {cursor next : Cursor}
    {items : List Expr}
    (succeeds : Parse.elements close depth cursor = .ok (items, next)) :
    Reads (Elements close) cursor next items := by
  induction depth generalizing cursor next items with
  | zero => exact (Cursor.not_unexpected succeeds).elim
  | succ depth inductionHypothesis =>
      obtain ⟨⟨item, afterItem⟩, itemSucceeds, rest⟩ :=
        except_bind_eq_ok.mp succeeds
      obtain ⟨tokens, itemShape, itemDerives⟩ :=
        (sound depth).expression itemSucceeds
      simp only at rest
      split at rest
      · rename_i present
        obtain ⟨comma, following, shape⟩ := Cursor.at?_eq_true_iff.mp present
        have nextShape := Cursor.advance_rest shape
        split at rest
        · rename_i closes
          obtain ⟨closing, after, closeShape⟩ :=
            Cursor.at?_eq_true_iff.mp closes
          cases rest
          refine ⟨tokens ++ [⟨comma, .mark .comma⟩, ⟨closing, .mark close⟩], ?_,
            .lastComma itemDerives⟩
          rw [itemShape, shape, ← nextShape, closeShape,
            Cursor.advance_rest closeShape]
          simp
        · obtain ⟨⟨others, afterOthers⟩, othersSucceed, last⟩ :=
            except_bind_eq_ok.mp rest
          obtain ⟨later, othersShape, othersDerive⟩ :=
            inductionHypothesis othersSucceed
          rw [nextShape] at othersShape
          cases last
          refine ⟨tokens ++ ⟨comma, .mark .comma⟩ :: later, ?_,
            .more itemDerives othersDerive⟩
          rw [itemShape, shape, othersShape]
          simp
      · obtain ⟨afterClose, closes, last⟩ := except_bind_eq_ok.mp rest
        obtain ⟨closing, closeShape⟩ := Cursor.of_expect closes
        cases last
        refine ⟨tokens ++ [⟨closing, .mark close⟩], ?_, .last itemDerives⟩
        rw [itemShape, closeShape]
        simp

theorem initializer_reads
    {close : Mark}
    {depth : Nat}
    {cursor next : Cursor}
    {items : List Expr}
    (succeeds : Parse.initializer close depth cursor = .ok (items, next)) :
    Reads (Elements close) cursor next items := by
  unfold Parse.initializer at succeeds
  split at succeeds
  · cases succeeds
  · exact elements_read succeeds

/-- A comma that is skipped may be left out. -/
theorem skip_reads (cursor : Cursor) :
    ∃ tokens, cursor.rest = tokens ++ (cursor.skip .comma).rest ∧
      OptionalComma tokens := by
  rcases cursor.skip_rest .comma with same | ⟨position, shape⟩
  · exact ⟨[], same, .absent⟩
  · exact ⟨[⟨position, .mark .comma⟩], shape, .present⟩

/-- Points are read up to the brace that closes them. -/
theorem points_read
    {depth : Nat}
    {cursor next : Cursor}
    {pairs : List (Expr × Expr)}
    (succeeds : Parse.points depth cursor = .ok (pairs, next)) :
    Reads Points cursor next pairs := by
  induction depth generalizing cursor next pairs with
  | zero => exact (Cursor.not_unexpected succeeds).elim
  | succ depth inductionHypothesis =>
      obtain ⟨afterOpen, opens, restOfOpen⟩ := except_bind_eq_ok.mp succeeds
      obtain ⟨opening, openShape⟩ := Cursor.of_expect opens
      obtain ⟨⟨x, afterX⟩, xSucceeds, restOfX⟩ :=
        except_bind_eq_ok.mp restOfOpen
      obtain ⟨before, xShape, xDerives⟩ := (sound depth).expression xSucceeds
      obtain ⟨afterComma, separates, restOfComma⟩ :=
        except_bind_eq_ok.mp restOfX
      obtain ⟨comma, commaShape⟩ := Cursor.of_expect separates
      obtain ⟨⟨y, afterY⟩, ySucceeds, restOfY⟩ :=
        except_bind_eq_ok.mp restOfComma
      obtain ⟨after, yShape, yDerives⟩ := (sound depth).expression ySucceeds
      obtain ⟨afterClose, closes, rest⟩ := except_bind_eq_ok.mp restOfY
      obtain ⟨closing, closeShape⟩ := Cursor.of_expect closes
      obtain ⟨optional, skipShape, skipped⟩ := skip_reads afterClose
      have point : OnePoint
          (⟨opening, .mark .openParen⟩ :: before ++
            ⟨comma, .mark .comma⟩ :: after
            ++ [⟨closing, .mark .closeParen⟩]) (x, y) :=
        .point xDerives yDerives
      have shape : cursor.rest =
          (⟨opening, .mark .openParen⟩ :: before ++
            ⟨comma, .mark .comma⟩ :: after ++ [⟨closing, .mark .closeParen⟩])
            ++ optional ++ (afterClose.skip .comma).rest := by
        rw [openShape, xShape, commaShape, yShape, closeShape, skipShape]
        simp
      simp only at rest
      split at rest
      · rename_i ends
        obtain ⟨brace, following, braceShape⟩ := Cursor.at?_eq_true_iff.mp ends
        cases rest
        refine ⟨(⟨opening, .mark .openParen⟩ :: before ++
          ⟨comma, .mark .comma⟩ :: after
          ++ [⟨closing, .mark .closeParen⟩]) ++ optional ++
            [⟨brace, .mark .closeBrace⟩], ?_,
          .last point skipped⟩
        rw [shape, braceShape, Cursor.advance_rest braceShape]
        simp
      · split at rest
        · obtain ⟨⟨others, afterOthers⟩, othersSucceed, last⟩ :=
            except_bind_eq_ok.mp rest
          obtain ⟨later, othersShape, othersDerive⟩ :=
            inductionHypothesis othersSucceed
          cases last
          refine ⟨_, ?_, .more point skipped othersDerive⟩
          rw [shape, othersShape]
          simp
        · exact (Cursor.not_unexpected rest).elim

/-- What braces hold is read up to the brace that closes them. -/
theorem braced_reads
    {depth : Nat}
    {cursor next : Cursor}
    {contents : Parse.Braced}
    (succeeds : Parse.braced depth cursor = .ok (contents, next)) :
    (∃ pairs, contents = .points pairs ∧ Reads Points cursor next pairs) ∨
      ∃ items, contents = .elements items ∧
        Reads (Elements .closeBrace) cursor next items := by
  unfold Parse.braced at succeeds
  split at succeeds
  · obtain ⟨⟨pairs, afterPairs⟩, pairsSucceed, last⟩ :=
      except_bind_eq_ok.mp succeeds
    cases last
    exact .inl ⟨pairs, rfl, points_read pairsSucceed⟩
  · obtain ⟨⟨items, afterItems⟩, itemsSucceed, last⟩ :=
      except_bind_eq_ok.mp succeeds
    cases last
    exact .inr ⟨items, rfl, initializer_reads itemsSucceed⟩

/-- What follows a name and an equals sign. -/
theorem definition_reads
    {depth : Nat}
    {name : String}
    {cursor next : Cursor}
    {action : Action}
    {position equals : Position}
    (succeeds : Parse.definition depth name cursor = .ok (action, next)) :
    Reads
      (fun tokens action =>
        Named (⟨position, .name name⟩ :: ⟨equals, .mark .assign⟩ :: tokens)
          action)
      cursor next action := by
  unfold Parse.definition at succeeds
  split at succeeds
  · rename_i opens
    obtain ⟨opening, following, openShape⟩ := Cursor.peek?_eq_some_iff.mp opens
    obtain ⟨⟨contents, afterContents⟩, contentsSucceed, last⟩ :=
      except_bind_eq_ok.mp succeeds
    rcases braced_reads contentsSucceed with
        ⟨pairs, rfl, tokens, shape, derives⟩
          | ⟨items, rfl, tokens, shape, derives⟩
    · cases last
      rw [Cursor.advance_rest openShape] at shape
      exact ⟨⟨opening, .mark .openBrace⟩ :: tokens,
        by rw [openShape, shape, List.cons_append], .curve derives⟩
    · cases last
      rw [Cursor.advance_rest openShape] at shape
      exact ⟨⟨opening, .mark .openBrace⟩ :: tokens,
        by rw [openShape, shape, List.cons_append], .braced derives⟩
  · rename_i opens
    obtain ⟨opening, following, openShape⟩ := Cursor.peek?_eq_some_iff.mp opens
    obtain ⟨⟨items, afterItems⟩, itemsSucceed, last⟩ :=
      except_bind_eq_ok.mp succeeds
    obtain ⟨tokens, shape, derives⟩ := initializer_reads itemsSucceed
    cases last
    rw [Cursor.advance_rest openShape] at shape
    exact ⟨⟨opening, .mark .openBracket⟩ :: tokens,
      by rw [openShape, shape, List.cons_append], .bracketed derives⟩
  · obtain ⟨⟨value, afterValue⟩, valueSucceeds, last⟩ :=
      except_bind_eq_ok.mp succeeds
    obtain ⟨tokens, shape, derives⟩ := (sound depth).expression valueSucceeds
    cases last
    exact ⟨tokens, shape, .scalar derives⟩

/-- What follows a name and an opening parenthesis. -/
theorem function_reads
    {depth : Nat}
    {name : String}
    {cursor next : Cursor}
    {action : Action}
    {position opening : Position}
    (succeeds : Parse.function depth name cursor = .ok (action, next)) :
    Reads
      (fun tokens action =>
        Named (⟨position, .name name⟩ :: ⟨opening, .mark .openParen⟩ :: tokens)
          action)
      cursor next action := by
  obtain ⟨⟨names, afterNames⟩, namesSucceed, restOfNames⟩ :=
    except_bind_eq_ok.mp succeeds
  obtain ⟨before, namesShape, namesDerive⟩ := params_read namesSucceed
  obtain ⟨afterClose, closes, restOfClose⟩ := except_bind_eq_ok.mp restOfNames
  obtain ⟨closing, closeShape⟩ := Cursor.of_expect closes
  obtain ⟨afterEquals, assigns, restOfEquals⟩ :=
    except_bind_eq_ok.mp restOfClose
  obtain ⟨equals, equalsShape⟩ := Cursor.of_expect assigns
  obtain ⟨⟨body, afterBody⟩, bodySucceeds, last⟩ :=
    except_bind_eq_ok.mp restOfEquals
  obtain ⟨after, bodyShape, bodyDerives⟩ :=
    (sound depth).expression bodySucceeds
  cases last
  refine ⟨before ++
    ⟨closing, .mark .closeParen⟩ :: ⟨equals, .mark .assign⟩ :: after, ?_,
    .function namesDerive bodyDerives⟩
  rw [namesShape, closeShape, equalsShape, bodyShape]
  simp

/-- What follows a name in front of an opening bracket. -/
theorem subscripted_reads
    {depth : Nat}
    {name : String}
    {cursor next : Cursor}
    {action : Action}
    {position : Position}
    (opens : cursor.at? .openBracket = true)
    (succeeds :
      Parse.subscripted depth position name cursor = .ok (action, next)) :
    Reads (fun tokens action => Named (⟨position, .name name⟩ :: tokens) action)
      cursor next action := by
  obtain ⟨⟨indices, afterIndices⟩, indicesSucceed, restOfIndices⟩ :=
    except_bind_eq_ok.mp succeeds
  obtain ⟨before, indicesShape, indicesDerive⟩ :
      Reads (Derives .subscripts) cursor afterIndices indices := by
    rcases (sound depth).subscripts indicesSucceed with ⟨-, -, closed⟩ | reads
    · rw [opens] at closed
      cases closed
    · exact reads
  obtain ⟨afterEquals, assigns, restOfEquals⟩ :=
    except_bind_eq_ok.mp restOfIndices
  obtain ⟨equals, equalsShape⟩ := Cursor.of_expect assigns
  have start :
      cursor.rest = before ++ ⟨equals, .mark .assign⟩ :: afterEquals.rest := by
    rw [indicesShape, equalsShape]
  simp only at restOfEquals
  split at restOfEquals
  · rename_i present
    obtain ⟨opening, following, openShape⟩ :=
      Cursor.peek?_eq_some_iff.mp present
    obtain ⟨⟨items, afterItems⟩, itemsSucceed, last⟩ :=
      except_bind_eq_ok.mp restOfEquals
    obtain ⟨after, itemsShape, itemsDerive⟩ := initializer_reads itemsSucceed
    rw [Cursor.advance_rest openShape] at itemsShape
    cases last
    refine ⟨before ++
      ⟨equals, .mark .assign⟩ :: ⟨opening, .mark .openBracket⟩ :: after, ?_,
      .sizedBracketed indicesDerive itemsDerive⟩
    rw [start, openShape, itemsShape]
    simp
  · rename_i present
    obtain ⟨opening, following, openShape⟩ :=
      Cursor.peek?_eq_some_iff.mp present
    obtain ⟨⟨contents, afterContents⟩, contentsSucceed, last⟩ :=
      except_bind_eq_ok.mp restOfEquals
    rcases braced_reads contentsSucceed with
        ⟨pairs, rfl, -⟩ | ⟨items, rfl, after, itemsShape, itemsDerive⟩
    · cases last
    · rw [Cursor.advance_rest openShape] at itemsShape
      cases last
      refine ⟨before ++
        ⟨equals, .mark .assign⟩ :: ⟨opening, .mark .openBrace⟩ :: after, ?_,
        .sizedBraced indicesDerive itemsDerive⟩
      rw [start, openShape, itemsShape]
      simp
  · obtain ⟨⟨value, afterValue⟩, valueSucceeds, last⟩ :=
      except_bind_eq_ok.mp restOfEquals
    obtain ⟨after, valueShape, valueDerives⟩ :=
      (sound depth).expression valueSucceeds
    cases last
    refine ⟨before ++ ⟨equals, .mark .assign⟩ :: after, ?_,
      .assign indicesDerive valueDerives⟩
    rw [start, valueShape]
    simp

/-- A statement that starts with a name. -/
theorem named_reads
    {depth : Nat}
    {cursor next : Cursor}
    {action : Action}
    (succeeds : Parse.named depth cursor = .ok (action, next)) :
    ∃ name tokens,
      cursor.rest = ⟨cursor.here, .name name⟩ :: tokens ++ next.rest ∧
        Named (⟨cursor.here, .name name⟩ :: tokens) action := by
  obtain ⟨⟨name, afterName⟩, nameSucceeds, rest⟩ :=
    except_bind_eq_ok.mp succeeds
  obtain ⟨position, nameShape⟩ := Cursor.of_expectName nameSucceeds
  rw [Cursor.here_eq nameShape] at rest ⊢
  simp only at rest
  split at rest
  · rename_i present
    obtain ⟨equals, following, shape⟩ := Cursor.peek?_eq_some_iff.mp present
    obtain ⟨tokens, restShape, derives⟩ := definition_reads rest
    rw [Cursor.advance_rest shape] at restShape
    refine ⟨name, ⟨equals, .mark .assign⟩ :: tokens, ?_, derives⟩
    rw [nameShape, shape, restShape]
    simp
  · rename_i present
    obtain ⟨opening, following, shape⟩ := Cursor.peek?_eq_some_iff.mp present
    obtain ⟨tokens, restShape, derives⟩ := function_reads rest
    rw [Cursor.advance_rest shape] at restShape
    refine ⟨name, ⟨opening, .mark .openParen⟩ :: tokens, ?_, derives⟩
    rw [nameShape, shape, restShape]
    simp
  · rename_i present
    obtain ⟨tokens, restShape, derives⟩ :=
      subscripted_reads (by simpa [Cursor.at?] using present) rest
    refine ⟨name, tokens, ?_, derives⟩
    rw [nameShape, restShape]
    simp
  · exact (Cursor.not_unexpected rest).elim

theorem statement_reads
    {depth : Nat}
    {cursor next : Cursor}
    {statement : Statement}
    (succeeds : Parse.statement depth cursor = .ok (statement, next)) :
    Reads OneStatement cursor next statement := by
  unfold Parse.statement at succeeds
  simp only at succeeds
  split at succeeds
  · rename_i present
    obtain ⟨position, following, shape⟩ := Cursor.peek?_eq_some_iff.mp present
    obtain ⟨⟨value, afterValue⟩, valueSucceeds, rest⟩ :=
      except_bind_eq_ok.mp succeeds
    obtain ⟨tokens, valueShape, valueDerives⟩ :=
      (sound depth).expression valueSucceeds
    rw [Cursor.advance_rest shape] at valueShape
    obtain ⟨afterEnd, ends, last⟩ := except_bind_eq_ok.mp rest
    obtain ⟨semicolon, endShape⟩ := Cursor.of_expect ends
    cases last
    rw [Cursor.here_eq shape]
    refine ⟨⟨position, .print⟩ :: tokens ++ [⟨semicolon, .mark .semicolon⟩], ?_,
      .print valueDerives⟩
    rw [shape, valueShape, endShape]
    simp
  · obtain ⟨⟨action, afterAction⟩, actionSucceeds, rest⟩ :=
      except_bind_eq_ok.mp succeeds
    obtain ⟨name, tokens, actionShape, derives⟩ := named_reads actionSucceeds
    obtain ⟨afterEnd, ends, last⟩ := except_bind_eq_ok.mp rest
    obtain ⟨semicolon, endShape⟩ := Cursor.of_expect ends
    cases last
    refine ⟨⟨cursor.here, .name name⟩ :: tokens ++
      [⟨semicolon, .mark .semicolon⟩], ?_, .named derives⟩
    rw [actionShape, endShape]
    simp

/-- A statement is never empty. -/
theorem OneStatement.length_pos
    {tokens : Tokens}
    {statement : Statement}
    (derives : OneStatement tokens statement) :
    0 < tokens.length := by
  cases derives <;> simp

theorem statements_read
    {depth count : Nat}
    {cursor : Cursor}
    {program : List Statement}
    (enough : cursor.rest.length < count)
    (succeeds : Parse.statements depth count cursor = .ok program) :
    Program cursor.rest program := by
  induction count generalizing cursor program with
  | zero => omega
  | succ count inductionHypothesis =>
      unfold Parse.statements at succeeds
      split at succeeds
      · rename_i ended
        cases succeeds
        have empty : cursor.rest = [] := by
          simpa [Cursor.peek?] using ended
        rw [empty]
        exact .done
      · rename_i ended
        cases succeeds
        obtain ⟨position, following, shape⟩ := Cursor.peek?_eq_some_iff.mp ended
        rw [shape]
        exact .ended
      · rename_i present
        obtain ⟨position, following, shape⟩ :=
          Cursor.peek?_eq_some_iff.mp present
        have shorter : cursor.advance.rest.length < count := by
          rw [Cursor.advance_rest shape]
          rw [shape, List.length_cons] at enough
          omega
        have derives := inductionHypothesis shorter succeeds
        rw [Cursor.advance_rest shape] at derives
        rw [shape]
        exact .skipped derives
      · obtain ⟨⟨first, afterFirst⟩, firstSucceeds, rest⟩ :=
          except_bind_eq_ok.mp succeeds
        obtain ⟨others, othersSucceed, last⟩ := except_bind_eq_ok.mp rest
        obtain ⟨tokens, shape, derives⟩ := statement_reads firstSucceeds
        cases last
        have shorter : afterFirst.rest.length < count := by
          have nonempty := derives.length_pos
          rw [shape, List.length_append] at enough
          omega
        rw [shape]
        exact .next derives (inductionHypothesis shorter othersSucceed)

/-- The tokens of an accepted source, without comments, form its program. -/
theorem program_of_parse
    {tokens : Tokens}
    {program : List Statement}
    (succeeds : Parse.program tokens = .ok program) :
    Program (Token.clean tokens) program := by
  have enough : (Parse.start tokens).rest.length < tokens.length + 1 := by
    have shorter :=
      List.length_filter_le (fun token => !token.item.isComment) tokens
    simp only [Parse.start, Token.clean]
    omega
  exact statements_read enough succeeds

end Grammar

end Formulary
