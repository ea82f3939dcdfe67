import Formulary.Proofs.Load.WellFormed
import Mathlib.Data.Int.Order.Basic
import Mathlib.Order.Basic

namespace Formulary

/-!
# What a table gives

The value of a table at an abscissa is described by the place of the abscissa
among the breakpoints: at one of them, strictly between two neighbours, or
beyond an end.  Exactly one of these holds, since the numbers are ordered and
the breakpoints increase.  The same value is found by positions, with a search
for the first breakpoint beyond the abscissa.
-/

namespace Double

section Order

variable
  {x y : Double}
  (finite : x.isFinite = true)
  (otherFinite : y.isFinite = true)

include finite otherFinite

/-- Finite numbers are ordered by their position on the number line. -/
theorem lt_iff_rank : x.lt y = true ↔ x.rank < y.rank := by
  simp [lt, isNaN_of_isFinite finite, isNaN_of_isFinite otherFinite]

theorem le_iff_rank : x.le y = true ↔ x.rank ≤ y.rank := by
  simp [le, isNaN_of_isFinite finite, isNaN_of_isFinite otherFinite]

theorem same_iff_rank : x.same y = true ↔ x.rank = y.rank := by
  simp [same, isNaN_of_isFinite finite, isNaN_of_isFinite otherFinite]

end Order

theorem rank_lt_of_lt
    {x y : Double}
    (less : x.lt y = true) :
    x.rank < y.rank := by
  simp only [lt, Bool.and_eq_true, decide_eq_true_eq] at less
  exact less.2

end Double

namespace Curve

/-- A table that is not refused is well-formed. -/
theorem Valid.wellFormed
    {curve : Curve}
    (valid : curve.Valid) :
    curve.WellFormed := by
  have faultless : fault? curve.points = none := valid
  exact wellFormed_of_ofPoints (by rw [ofPoints, faultless])

/-- Two neighbours on either side of an abscissa. -/
structure Brackets
    (points : List Point)
    (x : Double)
    (index : Nat)
    (a b : Point) :
    Prop where
  here : points[index]? = some a
  next : points[index + 1]? = some b
  above : a.x.lt x = true
  below : x.lt b.x = true

/--
What the policies give outside a table, beyond the segment at an end and that
end.
-/
inductive Outside (first last a b edge : Point) (x : Double) :
    Extrapolation → Except DomainFault Double → Prop where
  | linear : Outside first last a b edge x .linear (.ok (interpolate a b x))
  | clamp : Outside first last a b edge x .clamp (.ok edge.y)
  | refuse :
      Outside first last a b edge x .refuse (.error (.outside x first.x last.x))

/-- What points give at an abscissa, by its place among them. -/
inductive Gives
    (extrapolation : Extrapolation)
    (points : List Point)
    (x : Double) :
    Except DomainFault Double → Prop where
  | notFinite
      (notNumber : x.isFinite = false) :
      Gives extrapolation points x (.error (.notFinite x))
  | constant
      {only : Point}
      (finite : x.isFinite = true)
      (alone : points = [only]) :
      Gives extrapolation points x (.ok only.y)
  | breakpoint
      {index : Nat}
      {point : Point}
      (finite : x.isFinite = true)
      (here : points[index]? = some point)
      (same : point.x.same x = true) :
      Gives extrapolation points x (.ok point.y)
  | between
      {index : Nat}
      {a b : Point}
      (finite : x.isFinite = true)
      (brackets : Brackets points x index a b) :
      Gives extrapolation points x (.ok (interpolate a b x))
  | below
      {first second last : Point}
      {result : Except DomainFault Double}
      (finite : x.isFinite = true)
      (starts : [first, second] <+: points)
      (ends : points.getLast? = some last)
      (outside : x.lt first.x = true)
      (given : Outside first last first second first x extrapolation result) :
      Gives extrapolation points x result
  | above
      {first beforeLast last : Point}
      {result : Except DomainFault Double}
      (finite : x.isFinite = true)
      (starts : points.head? = some first)
      (ends : [beforeLast, last] <:+ points)
      (outside : last.x.lt x = true)
      (given : Outside first last beforeLast last last x extrapolation result) :
      Gives extrapolation points x result

/-- Points with finite abscissas that increase. -/
structure Increasing (points : List Point) : Prop where
  finite : ∀ point ∈ points, point.x.isFinite = true
  ordered : points.Pairwise fun first second => first.x.rank < second.x.rank

theorem WellFormed.increasing_points
    {curve : Curve}
    (wellFormed : curve.WellFormed) :
    Increasing curve.points := by
  refine ⟨fun point member => (wellFormed.finite point member).1, ?_⟩
  refine wellFormed.increasing.imp_of_mem
    fun firstMember secondMember below => ?_
  exact (Double.lt_iff_rank (wellFormed.finite _ firstMember).1
    (wellFormed.finite _ secondMember).1).mp below

namespace Increasing

variable
  {lower : Point}
  {points : List Point}

theorem tail
    (increasing : Increasing (lower :: points)) :
    Increasing points :=
  ⟨fun point member =>
    increasing.finite point (List.mem_cons_of_mem lower member),
    (List.pairwise_cons.mp increasing.ordered).2⟩

theorem head
    (increasing : Increasing (lower :: points)) :
    lower.x.isFinite = true :=
  increasing.finite lower List.mem_cons_self

/-- The first point is the lowest. -/
theorem lt_of_mem
    (increasing : Increasing (lower :: points))
    {point : Point}
    (member : point ∈ points) :
    lower.x.rank < point.x.rank :=
  (List.pairwise_cons.mp increasing.ordered).1 point member

/-- A point at a later position is higher. -/
theorem lt_of_getElem?
    (increasing : Increasing points)
    {index other : Nat}
    {point later : Point}
    (here : points[index]? = some point)
    (there : points[other]? = some later)
    (before : index < other) :
    point.x.rank < later.x.rank := by
  obtain ⟨small, rfl⟩ := List.getElem?_eq_some_iff.mp here
  obtain ⟨otherSmall, rfl⟩ := List.getElem?_eq_some_iff.mp there
  exact List.pairwise_iff_getElem.mp increasing.ordered index other small
    otherSmall before

end Increasing

section Within

variable
  {x : Double}
  {lower : Point}
  {uppers : List Point}

/--
Beyond a point that is not the last one to be passed, the search goes on with
the next.
-/
theorem within_cons_of_le
    {upper : Point}
    (passed : upper.x.le x = true) :
    within x lower (upper :: uppers) = within x upper uppers := by
  rw [within, if_pos passed]

theorem within_of_breakpoint
    (finite : x.isFinite = true)
    (increasing : Increasing (lower :: uppers))
    {index : Nat}
    {point : Point}
    (here : (lower :: uppers)[index]? = some point)
    (same : point.x.same x = true) :
    within x lower uppers = point.y := by
  induction uppers generalizing lower index with
  | nil =>
      obtain ⟨small, rfl⟩ := List.getElem?_eq_some_iff.mp here
      obtain rfl : index = 0 := by simpa using small
      rfl
  | cons upper rest inductionHypothesis =>
      have pointFinite := increasing.finite point (List.mem_of_getElem? here)
      have upperFinite := increasing.tail.head
      have atPoint := (Double.same_iff_rank pointFinite finite).mp same
      cases index with
      | zero =>
          obtain rfl : lower = point := by simpa using here
          have higher :=
            increasing.lt_of_mem (List.mem_cons_self (a := upper) (l := rest))
          have notPassed : ¬ upper.x.le x = true := by
            rw [Double.le_iff_rank upperFinite finite]
            omega
          rw [within, if_neg notPassed, if_pos same]
      | succ index =>
          have there : (upper :: rest)[index]? = some point := by
            simpa using here
          have passed : upper.x.le x = true := by
            rw [Double.le_iff_rank upperFinite finite, ← atPoint]
            rcases List.mem_cons.mp (List.mem_of_getElem? there) with
                rfl | behind
            · exact le_rfl
            · exact (increasing.tail.lt_of_mem behind).le
          rw [within_cons_of_le passed]
          exact inductionHypothesis increasing.tail there

theorem within_of_brackets
    (finite : x.isFinite = true)
    (increasing : Increasing (lower :: uppers))
    {index : Nat}
    {a b : Point}
    (brackets : Brackets (lower :: uppers) x index a b) :
    within x lower uppers = interpolate a b x := by
  obtain ⟨here, next, above, below⟩ := brackets
  induction uppers generalizing lower index with
  | nil => simp at next
  | cons upper rest inductionHypothesis =>
      have aFinite := increasing.finite a (List.mem_of_getElem? here)
      have upperFinite := increasing.tail.head
      have afterA := Double.rank_lt_of_lt above
      have beforeB := Double.rank_lt_of_lt below
      cases index with
      | zero =>
          obtain rfl : lower = a := by simpa using here
          obtain rfl : upper = b := by simpa using next
          have notPassed : ¬ upper.x.le x = true := by
            rw [Double.le_iff_rank upperFinite finite]
            omega
          have notSame : ¬ lower.x.same x = true := by
            rw [Double.same_iff_rank aFinite finite]
            omega
          rw [within, if_neg notPassed, if_neg notSame]
      | succ index =>
          have there : (upper :: rest)[index]? = some a := by simpa using here
          have passed : upper.x.le x = true := by
            rw [Double.le_iff_rank upperFinite finite]
            rcases List.mem_cons.mp (List.mem_of_getElem? there) with
                rfl | behind
            · exact afterA.le
            · exact ((increasing.tail.lt_of_mem behind).trans afterA).le
          rw [within_cons_of_le passed]
          exact inductionHypothesis increasing.tail there (by simpa using next)

/--
An abscissa that no end is on the wrong side of is at a breakpoint or between
two.
-/
theorem breakpoint_or_brackets
    (finite : x.isFinite = true)
    (increasing : Increasing (lower :: uppers))
    (notBelow : lower.x.rank ≤ x.rank)
    (notAbove :
      ∀ last, (lower :: uppers).getLast? = some last → x.rank ≤ last.x.rank) :
    (∃ (index : Nat) (point : Point),
        (lower :: uppers)[index]? = some point ∧ point.x.same x = true) ∨
      ∃ index a b, Brackets (lower :: uppers) x index a b := by
  induction uppers generalizing lower with
  | nil =>
      have atLower := le_antisymm notBelow (notAbove lower rfl)
      exact .inl ⟨0, lower, rfl,
        (Double.same_iff_rank increasing.head finite).mpr atLower⟩
  | cons upper rest inductionHypothesis =>
      have upperFinite := increasing.tail.head
      by_cases passed : upper.x.rank ≤ x.rank
      · have lastOfRest (last : Point)
            (ends : (upper :: rest).getLast? = some last) :
            x.rank ≤ last.x.rank :=
          notAbove last (by rw [List.getLast?_cons_cons]; exact ends)
        rcases inductionHypothesis increasing.tail passed lastOfRest with
            ⟨index, point, here, same⟩ | ⟨index, a, b, brackets⟩
        · exact .inl ⟨index + 1, point, by simpa using here, same⟩
        · exact .inr ⟨index + 1, a, b,
            { brackets with
              here := by simpa using brackets.here
              next := by simpa using brackets.next }⟩
      · rcases Int.lt_or_eq_of_le notBelow with after | atLower
        · exact .inr ⟨0, lower, upper,
            { here := rfl
              next := rfl
              above := (Double.lt_iff_rank increasing.head finite).mpr after
              below := (Double.lt_iff_rank finite upperFinite).mpr (by omega) }⟩
        · exact .inl ⟨0, lower, rfl,
            (Double.same_iff_rank increasing.head finite).mpr atLower⟩

end Within

/-! Values beyond an end of the table. -/

theorem lastTwo_suffix
    (first second : Point)
    (rest : List Point) :
    [(lastTwo first second rest).1, (lastTwo first second rest).2] <:+
      first :: second :: rest := by
  induction rest generalizing first second with
  | nil => exact List.suffix_rfl
  | cons third others inductionHypothesis =>
      exact (inductionHypothesis second third).trans (List.suffix_cons first _)

/-- The two points at the end are told by the list. -/
theorem eq_of_suffix
    {a b c d : Point}
    {points : List Point}
    (ends : [a, b] <:+ points)
    (endsToo : [c, d] <:+ points) :
    a = c ∧ b = d := by
  have same :=
    (List.suffix_of_suffix_length_le ends endsToo (by simp)).eq_of_length rfl
  simpa using same

theorem getLast?_of_suffix
    {a b : Point}
    {points : List Point}
    (ends : [a, b] <:+ points) :
    points.getLast? = some b := by
  obtain ⟨earlier, rfl⟩ := ends
  simp

theorem outside_iff_beyond
    {extrapolation : Extrapolation}
    {first last a b edge : Point}
    {x : Double}
    {result : Except DomainFault Double} :
    Outside first last a b edge x extrapolation result ↔
      beyond extrapolation a b edge (.outside x first.x last.x) x = result := by
  constructor
  · intro outside
    cases outside <;> rfl
  · rintro rfl
    cases extrapolation
    · exact .linear
    · exact .clamp
    · exact .refuse

section Table

variable
  {extrapolation : Extrapolation}
  {x : Double}

/-- The value of a table of several points, from the two at its end. -/
theorem valueAt_of_suffix
    (finite : x.isFinite = true)
    {first second a b : Point}
    {rest : List Point}
    (ends : [a, b] <:+ first :: second :: rest) :
    valueAt extrapolation ⟨first :: second :: rest⟩ x =
      if x.lt first.x then
        beyond extrapolation first second first (.outside x first.x b.x) x
      else if b.x.lt x then beyond extrapolation a b b
        (.outside x first.x b.x) x
      else .ok (within x first (second :: rest)) := by
  obtain ⟨sameA, sameB⟩ := eq_of_suffix (lastTwo_suffix first second rest) ends
  have number : ¬ ((!x.isFinite) = true) := by simp [finite]
  rw [valueAt, if_neg number, ← sameA, ← sameB]

/--
Between the ends of a table of several points its value is found within the
breakpoints.
-/
theorem valueAt_of_inside
    (finite : x.isFinite = true)
    {first second : Point}
    {rest : List Point}
    (increasing : Increasing (first :: second :: rest))
    (notBelow : first.x.rank ≤ x.rank)
    (notAbove :
      ∀ last, (first :: second :: rest).getLast? = some last →
        x.rank ≤ last.x.rank) :
    valueAt extrapolation ⟨first :: second :: rest⟩ x =
      .ok (within x first (second :: rest)) := by
  have ends := lastTwo_suffix first second rest
  have last := getLast?_of_suffix ends
  have lastFinite := increasing.finite _ (List.mem_of_getLast? last)
  have isBelow := notAbove _ last
  rw [valueAt_of_suffix finite ends, if_neg, if_neg]
  · rw [Double.lt_iff_rank lastFinite finite]
    omega
  · rw [Double.lt_iff_rank finite increasing.head]
    omega

/-- No point is above the last one. -/
theorem Increasing.le_getLast?
    {points : List Point}
    (increasing : Increasing points)
    {index : Nat}
    {point last : Point}
    (here : points[index]? = some point)
    (ends : points.getLast? = some last) :
    point.x.rank ≤ last.x.rank := by
  rw [List.getLast?_eq_getElem?] at ends
  obtain ⟨small, rfl⟩ := List.getElem?_eq_some_iff.mp here
  rcases Nat.lt_or_ge index (points.length - 1) with before | isLast
  · exact (increasing.lt_of_getElem? here ends before).le
  · obtain rfl : index = points.length - 1 := by omega
    rw [here] at ends
    cases ends
    exact le_rfl

/-- No point is below the first one. -/
theorem Increasing.head_le
    {first : Point}
    {rest : List Point}
    (increasing : Increasing (first :: rest))
    {index : Nat}
    {point : Point}
    (here : (first :: rest)[index]? = some point) :
    first.x.rank ≤ point.x.rank := by
  rcases List.mem_cons.mp (List.mem_of_getElem? here) with rfl | behind
  · exact le_rfl
  · exact (increasing.lt_of_mem behind).le

/-- The place of an abscissa tells the value of a table. -/
theorem valueAt_of_gives
    {points : List Point}
    (increasing : Increasing points)
    {result : Except DomainFault Double}
    (gives : Gives extrapolation points x result) :
    valueAt extrapolation ⟨points⟩ x = result := by
  cases gives with
  | notFinite notNumber => simp [valueAt, notNumber]
  | constant finite alone =>
      subst alone
      simp [valueAt, finite]
  | @breakpoint index point finite here same =>
      have pointFinite := increasing.finite point (List.mem_of_getElem? here)
      have atPoint := (Double.same_iff_rank pointFinite finite).mp same
      match points with
      | [] => simp at here
      | [only] =>
          obtain ⟨small, rfl⟩ := List.getElem?_eq_some_iff.mp here
          obtain rfl : index = 0 := by simpa using small
          simp [valueAt, finite]
      | first :: second :: rest =>
          rw [valueAt_of_inside finite increasing
            (atPoint ▸ increasing.head_le here)
            fun last ends => atPoint ▸ increasing.le_getLast? here ends,
            within_of_breakpoint finite increasing here same]
  | @between index a b finite brackets =>
      have afterA := Double.rank_lt_of_lt brackets.above
      have beforeB := Double.rank_lt_of_lt brackets.below
      match points with
      | [] => simpa using brackets.here
      | [only] => simpa using brackets.next
      | first :: second :: rest =>
          rw [valueAt_of_inside finite increasing
            ((increasing.head_le brackets.here).trans afterA.le)
            fun last ends =>
              beforeB.le.trans (increasing.le_getLast? brackets.next ends),
            within_of_brackets finite increasing brackets]
  | @below first second last _ finite starts ends outside given =>
      obtain ⟨rest, rfl⟩ := starts
      have suffix := lastTwo_suffix first second rest
      obtain rfl :=
        Option.some.inj ((getLast?_of_suffix suffix).symm.trans ends)
      rw [List.cons_append, List.cons_append, List.nil_append,
        valueAt_of_suffix finite suffix, if_pos outside]
      exact outside_iff_beyond.mp given
  | @above first beforeLast last _ finite starts ends outside given =>
      match points with
      | [] => simp at starts
      | [only] => simpa using ends.length_le
      | head :: second :: rest =>
          obtain rfl : head = first := by simpa using starts
          have lastHere := getLast?_of_suffix ends
          have lastFinite :=
            increasing.finite last (List.mem_of_getLast? lastHere)
          have notBelow : ¬ x.lt head.x = true := by
            have firstHere : (head :: second :: rest)[0]? = some head := rfl
            have higher := increasing.le_getLast? firstHere lastHere
            rw [Double.lt_iff_rank lastFinite finite] at outside
            rw [Double.lt_iff_rank finite increasing.head]
            omega
          rw [valueAt_of_suffix finite ends, if_neg notBelow, if_pos outside]
          exact outside_iff_beyond.mp given

/-- Every abscissa has a place. -/
theorem gives_valueAt
    {points : List Point}
    (increasing : Increasing points)
    (nonempty : points ≠ []) :
    Gives extrapolation points x (valueAt extrapolation ⟨points⟩ x) := by
  cases finite : x.isFinite with
  | false =>
      simp only [valueAt, finite]
      exact .notFinite finite
  | true =>
      match points with
      | [] => exact absurd rfl nonempty
      | [only] =>
          simp only [valueAt, finite]
          exact .constant finite rfl
      | first :: second :: rest =>
          have suffix := lastTwo_suffix first second rest
          rw [valueAt_of_suffix finite suffix]
          split
          · rename_i outside
            exact .below finite ⟨rest, rfl⟩ (getLast?_of_suffix suffix) outside
              (outside_iff_beyond.mpr rfl)
          · rename_i notBelow
            split
            · rename_i outside
              exact .above finite rfl suffix outside
                (outside_iff_beyond.mpr rfl)
            · rename_i notAbove
              rw [Double.lt_iff_rank finite increasing.head] at notBelow
              have lastHere := getLast?_of_suffix suffix
              have lastFinite :=
                increasing.finite _ (List.mem_of_getLast? lastHere)
              rw [Double.lt_iff_rank lastFinite finite] at notAbove
              rcases breakpoint_or_brackets finite increasing (by omega) (by
                  intro last ends
                  obtain rfl := Option.some.inj (lastHere.symm.trans ends)
                  omega) with
                    ⟨index, point, here, same⟩ | ⟨index, a, b, brackets⟩
              · rw [within_of_breakpoint finite increasing here same]
                exact .breakpoint finite here same
              · rw [within_of_brackets finite increasing brackets]
                exact .between finite brackets

/-- An abscissa is between two neighbours at one position at most. -/
theorem Brackets.unique
    {points : List Point}
    (increasing : Increasing points)
    {index other : Nat}
    {a b c d : Point}
    (brackets : Brackets points x index a b)
    (others : Brackets points x other c d) :
    index = other := by
  have apart
      {index other : Nat}
      {a b c d : Point}
      (brackets : Brackets points x index a b)
      (others : Brackets points x other c d) :
      ¬ index < other := by
    intro before
    have beforeB := Double.rank_lt_of_lt brackets.below
    have afterC := Double.rank_lt_of_lt others.above
    rcases Nat.lt_or_eq_of_le before with further | isNext
    · have := increasing.lt_of_getElem? brackets.next others.here further
      omega
    · have same := brackets.next.symm.trans (isNext ▸ others.here)
      cases same
      omega
  exact Nat.le_antisymm (Nat.not_lt.mp (apart others brackets))
    (Nat.not_lt.mp (apart brackets others))

end Table

/-! The segment of a value, found by the position of its breakpoint. -/

/-- The position of the first point beyond an abscissa. -/
def partitionPoint (points : List Point) (x : Double) : Nat :=
  (points.takeWhile fun point => point.x.le x).length

/--
The value at the breakpoint before a position, or on the line to the breakpoint
there: nothing when a position lies outside the table.
-/
def valueBefore (points : List Point) (x : Double) : Nat → Option Double
  | 0 => none
  | position + 1 => do
      let lower ← points[position]?
      if lower.x.same x ∨ position + 1 = points.length then return lower.y
      else
        let upper ← points[position + 1]?
        return interpolate lower upper x

/--
The value of a table, with points read by their positions: nothing when one of
them lies outside the table.
-/
def valueByPosition
    (extrapolation : Extrapolation)
    (curve : Curve)
    (x : Double) :
    Option (Except DomainFault Double) :=
  let points := curve.points
  if !x.isFinite then some (.error (.notFinite x))
  else
    match points.head?, points.getLast? with
    | some first, some last =>
        let refusal := DomainFault.outside x first.x last.x
        if points.length = 1 then some (.ok first.y)
        else if x.lt first.x then do
          let a ← points[0]?
          let b ← points[1]?
          return beyond extrapolation a b first refusal x
        else if last.x.lt x then do
          let a ← points[points.length - 2]?
          return beyond extrapolation a last last refusal x
        else (valueBefore points x (partitionPoint points x)).map .ok
    | _, _ => some (.error .empty)

section Positions

variable {x : Double}

theorem partitionPoint_cons_of_le
    {lower : Point}
    (passed : lower.x.le x = true)
    (points : List Point) :
    partitionPoint (lower :: points) x = partitionPoint points x + 1 := by
  simp [partitionPoint, passed]

theorem partitionPoint_cons_of_not_le
    {lower : Point}
    (notPassed : ¬ lower.x.le x = true)
    (points : List Point) :
    partitionPoint (lower :: points) x = 0 := by
  simp [partitionPoint, notPassed]

/--
The points before the position are those that are not beyond the abscissa.
-/
theorem le_iff_lt_partitionPoint
    {points : List Point}
    (finite : x.isFinite = true)
    (increasing : Increasing points)
    {index : Nat}
    {point : Point}
    (here : points[index]? = some point) :
    point.x.le x = true ↔ index < partitionPoint points x := by
  induction points generalizing index with
  | nil => simp at here
  | cons lower points inductionHypothesis =>
      by_cases passed : lower.x.le x = true
      · rw [partitionPoint_cons_of_le passed]
        cases index with
        | zero =>
            obtain rfl : lower = point := by simpa using here
            simp [passed]
        | succ index =>
            rw [inductionHypothesis increasing.tail (by simpa using here)]
            omega
      · rw [partitionPoint_cons_of_not_le passed]
        have pointFinite := increasing.finite point (List.mem_of_getElem? here)
        have higher := increasing.head_le here
        rw [Double.le_iff_rank increasing.head finite] at passed
        rw [Double.le_iff_rank pointFinite finite]
        omega

/-- Behind a point that is passed, positions count from the next one. -/
theorem valueBefore_cons
    (lower : Point)
    (points : List Point)
    (position : Nat) :
    valueBefore (lower :: points) x (position + 2) =
      valueBefore points x (position + 1) := by
  simp [valueBefore]

/--
The search by position stays within the table and finds the value within the
breakpoints.
-/
theorem valueBefore_partitionPoint
    {lower : Point}
    (passed : lower.x.le x = true)
    (uppers : List Point) :
    valueBefore (lower :: uppers) x (partitionPoint (lower :: uppers) x) =
      some (within x lower uppers) := by
  induction uppers generalizing lower with
  | nil =>
      rw [partitionPoint_cons_of_le passed]
      simp [valueBefore, partitionPoint, within]
  | cons upper rest inductionHypothesis =>
      rw [partitionPoint_cons_of_le passed]
      by_cases upperPassed : upper.x.le x = true
      · rw [within_cons_of_le upperPassed, ← inductionHypothesis upperPassed,
          partitionPoint_cons_of_le upperPassed, valueBefore_cons]
      · rw [partitionPoint_cons_of_not_le upperPassed, within,
          if_neg upperPassed]
        by_cases same : lower.x.same x = true
        · simp [valueBefore, same]
        · simp [valueBefore, same]

/-- No position that is read lies outside the table. -/
theorem valueByPosition_eq
    (extrapolation : Extrapolation)
    {points : List Point}
    (increasing : Increasing points) :
    valueByPosition extrapolation ⟨points⟩ x =
      some (valueAt extrapolation ⟨points⟩ x) := by
  unfold valueByPosition
  cases finite : x.isFinite with
  | false => simp [valueAt, finite]
  | true =>
      match points with
      | [] => simp [valueAt, finite]
      | [only] => simp [valueAt, finite]
      | first :: second :: rest =>
          have suffix := lastTwo_suffix first second rest
          rw [valueAt_of_suffix finite suffix]
          generalize (lastTwo first second rest).1 = a at suffix ⊢
          generalize (lastTwo first second rest).2 = b at suffix ⊢
          have beforeLast :
              (first :: second :: rest)[(first :: second :: rest).length - 2]? =
              some a := by
            obtain ⟨earlier, shape⟩ := suffix
            rw [← shape]
            simp
          have several : (first :: second :: rest).length ≠ 1 := by simp
          have within : ¬ x.lt first.x = true →
              valueBefore (first :: second :: rest) x
                  (partitionPoint (first :: second :: rest) x) =
                some (within x first (second :: rest)) := by
            intro notBelow
            refine valueBefore_partitionPoint ?_ (second :: rest)
            rw [Double.lt_iff_rank finite increasing.head] at notBelow
            rw [Double.le_iff_rank increasing.head finite]
            omega
          simp only [getLast?_of_suffix suffix, List.head?_cons, beforeLast,
            Bool.not_true, Bool.false_eq_true, if_false, if_neg several]
          split_ifs with below above
          · rfl
          · rfl
          · rw [within below]
            rfl

end Positions

/-- What is known about the value of a table at an abscissa. -/
structure Described
    (extrapolation : Extrapolation)
    (curve : Curve)
    (x : Double) :
    Prop where
  /-- The value is the one that the place of the abscissa gives. -/
  byPlace :
    ∀ result, curve.valueAt extrapolation x = result ↔
      Gives extrapolation curve.points x result
  /-- There is no other pair of neighbours around the abscissa. -/
  unique :
    ∀ {index other : Nat} {a b c d : Point},
      Brackets curve.points x index a b →
        Brackets curve.points x other c d → index = other
  /--
  The points that are not beyond the abscissa come first, so that a search can
  find the rest.
  -/
  partitioned :
    x.isFinite = true →
      ∀ {index : Nat} {point : Point}, curve.points[index]? = some point →
        (point.x.le x = true ↔ index < partitionPoint curve.points x)
  /-- The positions that are read lie within the table. -/
  byPosition :
    curve.valueByPosition extrapolation x = some (curve.valueAt extrapolation x)

/--
Whatever the policy, a table gives at a finite abscissa the value of the
breakpoint there, or of the line between the only two neighbours around it.
Beyond its ends the policy decides, a single point is constant, and what is not
finite is refused.
-/
theorem table_value_by_place
    {curve : Curve}
    (valid : curve.Valid)
    (extrapolation : Extrapolation)
    (x : Double) :
    curve.Described extrapolation x := by
  have wellFormed := valid.wellFormed
  have increasing := wellFormed.increasing_points
  refine
    { byPlace := fun result => ⟨?covered, valueAt_of_gives increasing⟩
      unique := Brackets.unique increasing
      partitioned := fun finite => le_iff_lt_partitionPoint finite increasing
      byPosition := valueByPosition_eq extrapolation increasing }
  case covered =>
    rintro rfl
    exact gives_valueAt increasing wellFormed.nonempty

/--
A breakpoint is met by the other zero, and the policies differ beyond the ends
alone.
-/
theorem table_value_by_place_zero :
    ∃ curve : Curve,
      curve.points =
        [⟨.ofRatio true 1 1, .ofRatio false 1 1⟩, ⟨.zero, .ofRatio false 5 1⟩,
          ⟨.ofRatio false 2 1, .ofRatio false 3 1⟩] ∧
      curve.Valid ∧
      curve.valueAt .refuse Double.zero.neg = .ok (.ofRatio false 5 1) ∧
      curve.valueAt .clamp (.ofRatio true 7 1) = .ok (.ofRatio false 1 1) ∧
      curve.valueAt .refuse (.ofRatio false 7 1) =
        .error (.outside (.ofRatio false 7 1) (.ofRatio true 1 1)
          (.ofRatio false 2 1)) ∧
      ∀ extrapolation x, curve.Described extrapolation x := by
  have valid :
      Curve.Valid
        ⟨[⟨.ofRatio true 1 1, .ofRatio false 1 1⟩,
          ⟨.zero, .ofRatio false 5 1⟩,
          ⟨.ofRatio false 2 1, .ofRatio false 3 1⟩]⟩ := by
    decide
  exact ⟨_, rfl, valid, by decide, by decide, by decide,
    fun extrapolation x => table_value_by_place valid extrapolation x⟩

end Curve

end Formulary
