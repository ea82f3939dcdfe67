import Formulary.Proofs.Number.Double
import Formulary.Proofs.Source.Statements

namespace Formulary

open Stateful

/-!
# The words of source text

What the scanner guarantees about literals and names, and how it carries over
to the trees the parser builds from them: numbers are written without a sign,
doubles are finite, and names are identifiers other than keywords.
-/

namespace Lexeme

/-- A spelling that is read as a name. -/
structure IsName (spelling : String) : Prop where
  shape :
    ∃ first rest, spelling.toList = first :: rest ∧ isNameStart first = true ∧
      ∀ c ∈ rest, isNameChar c = true
  notKeyword : word spelling = .name spelling

end Lexeme

namespace Token

/-- What every token the scanner gives satisfies. -/
def Lexical : Token → Prop
  | .literal (.int n) => 0 ≤ n.toInt
  | .literal (.double x) => x.isFinite = true ∧ x.isNegative = false
  | .name spelling => Lexeme.IsName spelling
  | _ => True

end Token

/-- A word that fits is the number itself. -/
theorem toInt_of_checkedInt
    {n : Int}
    {word : Int64}
    (fits : checkedInt n = some word) :
    word.toInt = n := by
  unfold checkedInt at fits
  split at fits
  · rename_i bounds
    cases fits
    exact Int64.toInt_ofInt_of_le (by simpa using bounds.1) (by
      have upper := bounds.2
      simp only [Int64.toInt_maxValue] at upper
      omega)
  · cases fits

namespace Lexeme

theorem lexical_of_integer
    {n : Nat}
    {fault : LexFault}
    {more : Nat}
    {lexeme : Lexeme}
    (succeeds : integer n fault more = .ok lexeme) :
    lexeme.token.Lexical := by
  unfold integer at succeeds
  split at succeeds
  · rename_i word fits
    cases succeeds
    simp only [Token.Lexical, toInt_of_checkedInt fits]
    omega
  · cases succeeds

/-- Reading a decimal gives the sign it is read with. -/
theorem isNegative_toDouble
    (negative : Bool)
    (d : Decimal) :
    (d.toDouble negative).isNegative = negative := by
  simp only [Decimal.toDouble]
  split
  · exact Double.isNegative_ofMagnitude (by decide) negative
  · split
    · exact Double.isNegative_ofMagnitude (by decide) negative
    · exact Double.isNegative_ofRatio negative _ _

theorem lexical_of_decimal
    {text : List Char}
    {lexeme : Lexeme}
    (succeeds : decimal text = .ok lexeme) :
    lexeme.token.Lexical := by
  simp only [decimal] at succeeds
  split at succeeds
  · exact lexical_of_integer succeeds
  · split at succeeds
    · rename_i finite
      cases succeeds
      exact ⟨finite, isNegative_toDouble false _⟩
    · cases succeeds

theorem lexical_word
    {spelling : String}
    (shape :
      ∃ first rest, spelling.toList = first :: rest ∧ isNameStart first = true ∧
        ∀ c ∈ rest, isNameChar c = true) :
    (word spelling).Lexical := by
  by_cases keyword : word spelling = .name spelling
  · rw [keyword]
    exact ⟨shape, keyword⟩
  · unfold word at keyword ⊢
    split
    · trivial
    · split
      · trivial
      · split
        · trivial
        · rename_i notTrue notFalse notPrint
          simp [notTrue, notFalse, notPrint] at keyword

theorem lexical_of_symbol
    {first : Char}
    {rest : List Char}
    {lexeme : Lexeme}
    (succeeds : symbol first rest = .ok lexeme) :
    lexeme.token.Lexical := by
  unfold symbol at succeeds
  split at succeeds <;> cases succeeds <;> trivial

/-- A name starts like a name. -/
theorem isNameStart_of_classOf
    {first : Char}
    {rest : List Char}
    (isName : classOf first rest = .name) :
    isNameStart first = true := by
  unfold classOf at isName
  split at isName
  all_goals try cases isName
  · split at isName <;> cases isName
  · split at isName
    · cases isName
    · split at isName
      · assumption
      · cases isName

/-- Every lexeme is lexical. -/
theorem lexical_of_read
    {first : Char}
    {rest : List Char}
    {lexeme : Lexeme}
    (succeeds : read first rest = .ok lexeme) :
    lexeme.token.Lexical := by
  unfold read at succeeds
  split at succeeds
  · cases succeeds
    trivial
  · unfold blockComment at succeeds
    split at succeeds <;> cases succeeds
    trivial
  · unfold string at succeeds
    split at succeeds <;> cases succeeds
    trivial
  · simp only [hexInteger] at succeeds
    split at succeeds
    · cases succeeds
    · exact lexical_of_integer succeeds
  · exact lexical_of_decimal succeeds
  · rename_i isName
    cases succeeds
    refine lexical_word ⟨first, rest.takeWhile isNameChar, String.toList_ofList,
      isNameStart_of_classOf isName, ?_⟩
    intro c member
    exact List.all_eq_true.mp List.all_takeWhile c member
  · exact lexical_of_symbol succeeds

end Lexeme

namespace Token

/-- Every token of a text is lexical. -/
theorem lexical_of_scanFrom
    {position : Position}
    {text : List Char}
    {tokens : List (Located Token)}
    (succeeds : scanFrom position text = .ok tokens) :
    ∀ token ∈ tokens, token.item.Lexical := by
  induction position, text using scanFrom.induct generalizing tokens with
  | case1 position =>
      rw [scanFrom] at succeeds
      cases succeeds
      simp [Lexical]
  | case2 position c rest blank inductionHypothesis =>
      rw [scanFrom, if_pos blank] at succeeds
      exact inductionHypothesis succeeds
  | case3 position c rest visible issue fails =>
      rw [scanFrom, if_neg visible, fails] at succeeds
      cases succeeds
  | case4 position c rest visible lexeme reads next others othersScan =>
      rename_i inductionHypothesis
      rw [scanFrom, if_neg visible, reads] at succeeds
      simp only [next] at othersScan
      simp only [othersScan] at succeeds
      cases succeeds
      intro token member
      rcases List.mem_cons.mp member with isFirst | inRest
      · rw [isFirst]
        exact Lexeme.lexical_of_read reads
      · exact inductionHypothesis othersScan token inRest
  | case5 position c rest visible lexeme reads next error fails =>
      rw [scanFrom, if_neg visible, reads] at succeeds
      simp only [next] at fails
      simp only [fails] at succeeds
      cases succeeds

end Token

namespace Expr

mutual

/-- The literals and names a tree is built from. -/
def words : Expr → List Token
  | .literal _ value => [.literal value]
  | .name _ spelling => [.name spelling]
  | .call _ callee arguments => .name callee :: wordsOf arguments
  | .element _ array indices => .name array :: wordsOf indices
  | .negate _ operand => operand.words
  | .binary _ _ left right => left.words ++ right.words

/-- The literals and names of several trees. -/
def wordsOf : List Expr → List Token
  | [] => []
  | first :: rest => first.words ++ wordsOf rest

end

/-- A tree of literals and names as the scanner gives them. -/
def Lexical (tree : Expr) : Prop :=
  ∀ word ∈ tree.words, word.Lexical

theorem wordsOf_append (first second : List Expr) :
    wordsOf (first ++ second) = wordsOf first ++ wordsOf second := by
  induction first with
  | nil => rfl
  | cons tree rest inductionHypothesis =>
      rw [List.cons_append, wordsOf, wordsOf, inductionHypothesis,
        List.append_assoc]

theorem mem_wordsOf
    {trees : List Expr}
    {word : Token} :
    word ∈ wordsOf trees ↔ ∃ tree ∈ trees, word ∈ tree.words := by
  induction trees with
  | nil => simp [wordsOf]
  | cons tree rest inductionHypothesis => simp [wordsOf, inductionHypothesis]

namespace Lexical

theorem of_call
    {position : Position}
    {callee : String}
    {arguments : List Expr}
    (lexical : (Expr.call position callee arguments).Lexical) :
    ∀ argument ∈ arguments, argument.Lexical := by
  intro argument member word isWord
  exact lexical word
    (List.mem_cons_of_mem _ (mem_wordsOf.mpr ⟨argument, member, isWord⟩))

theorem of_element
    {position : Position}
    {array : String}
    {indices : List Expr}
    (lexical : (Expr.element position array indices).Lexical) :
    ∀ index ∈ indices, index.Lexical := by
  intro index member word isWord
  exact lexical word
    (List.mem_cons_of_mem _ (mem_wordsOf.mpr ⟨index, member, isWord⟩))

theorem of_binary
    {position : Position}
    {op : BinaryOp}
    {left right : Expr}
    (lexical : (Expr.binary position op left right).Lexical) :
    left.Lexical ∧ right.Lexical :=
  ⟨fun word isWord => lexical word (List.mem_append_left _ isWord),
    fun word isWord => lexical word (List.mem_append_right _ isWord)⟩

end Lexical

end Expr

namespace Grammar

/-- The words of a tree are tokens of its phrase. -/
theorem Derives.mem_of_words
    {category : Category}
    {tokens : Tokens}
    {trees : List Expr}
    (derives : Derives category tokens trees)
    {word : Token}
    (isWord : word ∈ Expr.wordsOf trees) :
    word ∈ tokens.map Located.item := by
  induction derives <;>
    simp_all [Expr.wordsOf, Expr.words, Expr.combine, Expr.wordsOf_append] <;>
      grind

/-- A tree of lexical tokens is lexical. -/
theorem Derives.lexical
    {category : Category}
    {tokens : Tokens}
    {trees : List Expr}
    (derives : Derives category tokens trees)
    (lexical : ∀ token ∈ tokens, token.item.Lexical) :
    ∀ tree ∈ trees, tree.Lexical := by
  intro tree isTree word isWord
  have inTokens :=
    derives.mem_of_words (Expr.mem_wordsOf.mpr ⟨tree, isTree, isWord⟩)
  obtain ⟨token, member, rfl⟩ := List.mem_map.mp inTokens
  exact lexical token member

end Grammar

end Formulary
