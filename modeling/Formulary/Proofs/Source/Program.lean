import Formulary.Machine.Load
import Formulary.Proofs.Source.Words

namespace Formulary

open Stateful

/-!
# What programs are made of

The expressions of a program that are stored when it is loaded are phrases of
its text, and its declarations have the shape the grammar gives them.
-/

namespace Action

/-- The expressions whose programs a statement stores. -/
def stored : Action → List Expr
  | .scalar _ value => [value]
  | .function _ _ body => [body]
  | .curve _ _ => []
  | .array _ _ elements => elements
  | .assign _ _ value => [value]
  | .print _ => []

/-- What the grammar guarantees about the names and lists of a statement. -/
def WellShaped : Action → Prop
  | .scalar name _ => Lexeme.IsName name
  | .function name params _ =>
      Lexeme.IsName name ∧ params ≠ [] ∧ ∀ param ∈ params, Lexeme.IsName param
  | .curve name _ => Lexeme.IsName name
  | .array name sizes elements =>
      Lexeme.IsName name ∧ sizes ≠ some [] ∧ elements ≠ []
  | .assign name _ _ => Lexeme.IsName name
  | .print _ => True

end Action

namespace Grammar

/-- An expression that stands in the tokens of a text. -/
def Written (tree : Expr) : Prop :=
  ∃ source tokens phrase,
    Token.scan source = .ok tokens ∧ phrase <:+: Token.clean tokens ∧
      Derives .expression phrase [tree]

theorem Written.lexical
    {tree : Expr}
    (written : Written tree) :
    tree.Lexical := by
  obtain ⟨source, tokens, phrase, scanned, within, derives⟩ := written
  refine derives.lexical ?_ tree (List.mem_singleton_self tree)
  intro token member
  exact Token.lexical_of_scanFrom scanned token
    (List.mem_filter.mp (within.subset member)).1

end Grammar

/-- A tree the parser gives somewhere in the tokens of a text. -/
def Parse.Produces (tree : Expr) : Prop :=
  ∃ source tokens depth cursor next,
    Token.scan source = .ok tokens ∧ cursor.rest <:+ Token.clean tokens ∧
      Parse.expression depth cursor = .ok (tree, next)

/-- What the parser gives is written in the text. -/
theorem Parse.Produces.written
    {tree : Expr}
    (produced : Parse.Produces tree) :
    Grammar.Written tree := by
  obtain ⟨source, tokens, depth, cursor, next, scanned, isSuffix, succeeds⟩ :=
    produced
  obtain ⟨phrase, shape, derives⟩ := (Grammar.sound depth).expression succeeds
  have within : phrase <:+: cursor.rest := by
    rw [shape]
    exact (List.prefix_append _ _).isInfix
  exact ⟨source, tokens, phrase, scanned, within.trans isSuffix.isInfix,
    derives⟩

namespace Grammar

/-- An element is an expression between the marks of its list. -/
theorem Elements.infix_of_mem
    {close : Mark}
    {tokens : Tokens}
    {items : List Expr}
    (derives : Elements close tokens items)
    {item : Expr}
    (member : item ∈ items) :
    ∃ phrase, phrase <:+: tokens ∧ Derives .expression phrase [item] := by
  induction derives with
  | @last phrase only closing itemDerives =>
      obtain rfl := List.mem_singleton.mp member
      exact ⟨phrase, (List.prefix_append _ _).isInfix, itemDerives⟩
  | @lastComma phrase only comma closing itemDerives =>
      obtain rfl := List.mem_singleton.mp member
      exact ⟨phrase, (List.prefix_append _ _).isInfix, itemDerives⟩
  | @more phrase rest first items comma itemDerives others
        inductionHypothesis =>
      rcases List.mem_cons.mp member with isFirst | inRest
      · exact ⟨phrase, (List.prefix_append _ _).isInfix, isFirst ▸ itemDerives⟩
      · obtain ⟨later, within, laterDerives⟩ := inductionHypothesis inRest
        have after : rest <:+: phrase ++ ⟨comma, .mark .comma⟩ :: rest :=
          ((List.suffix_cons _ _).trans (List.suffix_append _ _)).isInfix
        exact ⟨later, within.trans after, laterDerives⟩

theorem Elements.ne_nil
    {close : Mark}
    {tokens : Tokens}
    {items : List Expr}
    (derives : Elements close tokens items) :
    items ≠ [] := by
  cases derives <;> simp

/-- There are no more elements than tokens. -/
theorem Elements.length_le
    {close : Mark}
    {tokens : Tokens}
    {items : List Expr}
    (derives : Elements close tokens items) :
    items.length ≤ tokens.length := by
  induction derives with
  | last => simp
  | lastComma => simp
  | more itemDerives others inductionHypothesis =>
      simp only [List.length_cons, List.length_append]
      omega

theorem Params.ne_nil
    {tokens : Tokens}
    {names : List String}
    (derives : Params tokens names) :
    names ≠ [] := by
  cases derives <;> simp

theorem Params.mem
    {tokens : Tokens}
    {names : List String}
    (derives : Params tokens names)
    {name : String}
    (member : name ∈ names) :
    ∃ position, ⟨position, .name name⟩ ∈ tokens := by
  induction derives with
  | @last only position =>
      obtain rfl := List.mem_singleton.mp member
      exact ⟨position, by simp⟩
  | @more first names tokens position comma others inductionHypothesis =>
      rcases List.mem_cons.mp member with isFirst | inRest
      · exact ⟨position, by simp [isFirst]⟩
      · obtain ⟨place, found⟩ := inductionHypothesis inRest
        exact ⟨place, by simp [found]⟩

/-- A stored expression is a phrase of its statement. -/
theorem Named.infix_of_stored
    {tokens : Tokens}
    {action : Action}
    (derives : Named tokens action)
    {tree : Expr}
    (member : tree ∈ action.stored) :
    ∃ phrase, phrase <:+: tokens ∧ Derives .expression phrase [tree] := by
  cases derives with
  | scalar valueDerives =>
      obtain rfl := List.mem_singleton.mp member
      exact ⟨_, ((List.suffix_cons _ _).trans (List.suffix_cons _ _)).isInfix,
        valueDerives⟩
  | curve => cases member
  | braced elementsDerive =>
      obtain ⟨phrase, within, phraseDerives⟩ :=
        elementsDerive.infix_of_mem member
      exact ⟨phrase,
        within.trans ((List.suffix_cons _ _).trans ((List.suffix_cons _ _).trans
          (List.suffix_cons _ _))).isInfix, phraseDerives⟩
  | bracketed elementsDerive =>
      obtain ⟨phrase, within, phraseDerives⟩ :=
        elementsDerive.infix_of_mem member
      exact ⟨phrase,
        within.trans ((List.suffix_cons _ _).trans ((List.suffix_cons _ _).trans
          (List.suffix_cons _ _))).isInfix, phraseDerives⟩
  | function paramsDerive bodyDerives =>
      obtain rfl := List.mem_singleton.mp member
      exact ⟨_, ((List.suffix_cons _ _).trans ((List.suffix_cons _ _).trans
        (List.suffix_append _ _))).isInfix, bodyDerives⟩
  | sizedBracketed sizesDerive elementsDerive =>
      obtain ⟨phrase, within, phraseDerives⟩ :=
        elementsDerive.infix_of_mem member
      exact ⟨phrase,
        within.trans ((List.suffix_cons _ _).trans ((List.suffix_cons _ _).trans
          (List.suffix_append _ _))).isInfix, phraseDerives⟩
  | sizedBraced sizesDerive elementsDerive =>
      obtain ⟨phrase, within, phraseDerives⟩ :=
        elementsDerive.infix_of_mem member
      exact ⟨phrase,
        within.trans ((List.suffix_cons _ _).trans ((List.suffix_cons _ _).trans
          (List.suffix_append _ _))).isInfix, phraseDerives⟩
  | assign indicesDerive valueDerives =>
      obtain rfl := List.mem_singleton.mp member
      exact ⟨_, ((List.suffix_cons _ _).trans (List.suffix_append _ _)).isInfix,
        valueDerives⟩

/-- Statements that start with a name have the shape the grammar gives them. -/
theorem Named.wellShaped
    {tokens : Tokens}
    {action : Action}
    (derives : Named tokens action)
    (lexical : ∀ token ∈ tokens, token.item.Lexical) :
    action.WellShaped := by
  cases derives with
  | scalar => exact lexical _ List.mem_cons_self
  | curve => exact lexical _ List.mem_cons_self
  | braced elementsDerive =>
      exact ⟨lexical _ List.mem_cons_self, by simp, elementsDerive.ne_nil⟩
  | bracketed elementsDerive =>
      exact ⟨lexical _ List.mem_cons_self, by simp, elementsDerive.ne_nil⟩
  | function paramsDerive bodyDerives =>
      refine ⟨lexical _ List.mem_cons_self, paramsDerive.ne_nil, ?_⟩
      intro param member
      obtain ⟨position, found⟩ := paramsDerive.mem member
      exact lexical ⟨position, .name param⟩ (by simp [found])
  | sizedBracketed sizesDerive elementsDerive =>
      exact ⟨lexical _ List.mem_cons_self,
        by simpa using sizesDerive.trees_ne_nil, elementsDerive.ne_nil⟩
  | sizedBraced sizesDerive elementsDerive =>
      exact ⟨lexical _ List.mem_cons_self,
        by simpa using sizesDerive.trees_ne_nil, elementsDerive.ne_nil⟩
  | assign => exact lexical _ List.mem_cons_self

/-- Every statement of a program is a phrase of its tokens. -/
theorem Program.infix_of_mem
    {tokens : Tokens}
    {program : List Statement}
    (derives : Program tokens program)
    {statement : Statement}
    (member : statement ∈ program) :
    ∃ phrase, phrase <:+: tokens ∧ OneStatement phrase statement := by
  induction derives with
  | done => cases member
  | ended => cases member
  | skipped rest inductionHypothesis =>
      obtain ⟨phrase, within, phraseDerives⟩ := inductionHypothesis member
      exact ⟨phrase, within.trans (List.suffix_cons _ _).isInfix, phraseDerives⟩
  | @next first others head tail headDerives rest inductionHypothesis =>
      rcases List.mem_cons.mp member with isFirst | inRest
      · exact ⟨first, (List.prefix_append _ _).isInfix, isFirst ▸ headDerives⟩
      · obtain ⟨phrase, within, phraseDerives⟩ := inductionHypothesis inRest
        exact ⟨phrase, within.trans (List.suffix_append _ _).isInfix,
          phraseDerives⟩

theorem OneStatement.infix_of_stored
    {tokens : Tokens}
    {statement : Statement}
    (derives : OneStatement tokens statement)
    {tree : Expr}
    (member : tree ∈ statement.action.stored) :
    ∃ phrase, phrase <:+: tokens ∧ Derives .expression phrase [tree] := by
  cases derives with
  | print => cases member
  | named namedDerives =>
      obtain ⟨phrase, within, phraseDerives⟩ :=
        namedDerives.infix_of_stored member
      exact ⟨phrase, within.trans (List.prefix_append _ _).isInfix,
        phraseDerives⟩

theorem OneStatement.wellShaped
    {tokens : Tokens}
    {statement : Statement}
    (derives : OneStatement tokens statement)
    (lexical : ∀ token ∈ tokens, token.item.Lexical) :
    statement.action.WellShaped := by
  cases derives with
  | print => trivial
  | named namedDerives =>
      exact namedDerives.wellShaped fun token member =>
        lexical token (List.mem_append_left _ member)

end Grammar

namespace Machine

/-- A source is parsed when it is scanned and its tokens form a program. -/
theorem parse_eq_ok_iff
    {file source : String}
    {program : List Statement} :
    parse file source = .ok program ↔
      ∃ tokens, Token.scan source = .ok tokens ∧
        Parse.program tokens = .ok program := by
  simp only [parse, except_bind_eq_ok, except_mapError_eq_ok]

section Parsed

variable
  {file source : String}
  {program : List Statement}
  (parsed : parse file source = .ok program)
  {statement : Statement}
  (member : statement ∈ program)
include parsed member

/-- Stored expressions are written in the source. -/
theorem written_of_parse
    {tree : Expr}
    (stored : tree ∈ statement.action.stored) :
    Grammar.Written tree := by
  obtain ⟨tokens, scanned, built⟩ := parse_eq_ok_iff.mp parsed
  obtain ⟨phrase, within, derives⟩ :=
    (Grammar.program_of_parse built).infix_of_mem member
  obtain ⟨inner, withinPhrase, innerDerives⟩ := derives.infix_of_stored stored
  exact ⟨source, tokens, inner, scanned, withinPhrase.trans within,
    innerDerives⟩

/-- Statements have the shape the grammar gives them. -/
theorem wellShaped_of_parse : statement.action.WellShaped := by
  obtain ⟨tokens, scanned, built⟩ := parse_eq_ok_iff.mp parsed
  obtain ⟨phrase, within, derives⟩ :=
    (Grammar.program_of_parse built).infix_of_mem member
  refine derives.wellShaped ?_
  intro token inPhrase
  exact Token.lexical_of_scanFrom scanned token
    (List.mem_filter.mp (within.subset inPhrase)).1

end Parsed

end Machine

end Formulary
