import Formulary.Proofs.Load.WellFormed

namespace Formulary

/-!
# Index tuples and places

An array stores its elements row by row.  An index tuple has one index for each
axis, and its place is a number in mixed radix, the last axis counting for
least.  Index tuples within the sizes of an array and places within its elements
are the same thing written in two ways, in the same order.
-/

namespace Grid

/-- An index that an axis of a given size has. -/
def Admits (size : Nat) (index : Int64) : Prop :=
  0 ≤ index.toInt ∧ index.toInt < size

instance (size : Nat) (index : Int64) : Decidable (Admits size index) :=
  inferInstanceAs (Decidable (_ ∧ _))

/-- One index for each axis, and each of them one that its axis has. -/
def Within (sizes : List Nat) (indices : List Int64) : Prop :=
  List.Forall₂ Admits sizes indices

instance
    (sizes : List Nat)
    (indices : List Int64) :
    Decidable (Within sizes indices) :=
  inferInstanceAs (Decidable (List.Forall₂ _ _ _))

/--
Why an index tuple does not address an element of an array with given sizes.
-/
inductive Refused
    (sizes : List Nat)
    (indices : List Int64) :
    IndexFault → Prop where
  | rank
      (miscounted : indices.length ≠ sizes.length) :
      Refused sizes indices (.rank sizes.length indices.length)
  /-- The first index outside its axis. -/
  | outOfRange
      {axis size : Nat}
      {index : Int64}
      (counted : indices.length = sizes.length)
      (earlier : Within (sizes.take axis) (indices.take axis))
      (sizeHere : sizes[axis]? = some size)
      (indexHere : indices[axis]? = some index)
      (outside : ¬ Admits size index) :
      Refused sizes indices (.outOfRange axis index size)

/--
Numbers of two digits in one radix are ordered by their first digit, then the
second.
-/
theorem radix_lt_iff
    {size high low otherHigh otherLow : Nat}
    (small : low < size)
    (otherSmall : otherLow < size) :
    high * size + low < otherHigh * size + otherLow ↔
      high < otherHigh ∨ high = otherHigh ∧ low < otherLow := by
  have above {first second : Nat} (less : first < second) :
      first * size + size ≤ second * size :=
    Nat.succ_mul first size ▸ Nat.mul_le_mul_right size less
  rcases Nat.lt_trichotomy high otherHigh with less | rfl | greater
  · have := above less
    omega
  · omega
  · have := above greater
    omega

theorem radix_eq_iff
    {size high low otherHigh otherLow : Nat}
    (small : low < size)
    (otherSmall : otherLow < size) :
    high * size + low = otherHigh * size + otherLow ↔
      high = otherHigh ∧ low = otherLow := by
  have less := @radix_lt_iff size high low otherHigh otherLow small otherSmall
  have greater :=
    @radix_lt_iff size otherHigh otherLow high low otherSmall small
  omega

section Offsets

variable
  {axis start place : Nat}
  {indices : List Int64}
  {sizes : List Nat}

theorem offsetFrom_cons
    {index : Int64}
    {size : Nat}
    (admitted : Admits size index) :
    offsetFrom axis start (index :: indices) (size :: sizes) =
      offsetFrom (axis + 1) (start * size + index.toInt.toNat)
        indices sizes := by
  rw [offsetFrom]
  exact if_pos admitted

theorem offsetFrom_cons_of_not
    {index : Int64}
    {size : Nat}
    (outside : ¬ Admits size index) :
    offsetFrom axis start (index :: indices) (size :: sizes) =
      .error (.outOfRange axis index size) := by
  rw [offsetFrom]
  exact if_neg outside

/-- The first axis of a tuple that has a place. -/
theorem offsetFrom_cons_eq_ok
    {index : Int64}
    {size : Nat}
    (found :
      offsetFrom axis start (index :: indices) (size :: sizes) = .ok place) :
    Admits size index ∧
      offsetFrom (axis + 1) (start * size + index.toInt.toNat) indices sizes =
        .ok place := by
  by_cases admitted : Admits size index
  · exact ⟨admitted, offsetFrom_cons admitted ▸ found⟩
  · rw [offsetFrom_cons_of_not admitted] at found
    cases found

/--
A tuple with an index for each axis has a place when each index is within its
axis.
-/
theorem exists_offsetFrom_iff
    (counted : indices.length = sizes.length) :
    (∃ place, offsetFrom axis start indices sizes = .ok place) ↔
      Within sizes indices := by
  induction sizes generalizing axis start indices with
  | nil =>
      obtain rfl := List.length_eq_zero_iff.mp counted
      exact ⟨fun _ => .nil, fun _ => ⟨start, rfl⟩⟩
  | cons size sizes inductionHypothesis =>
      obtain ⟨index, others, rfl⟩ :=
        List.exists_cons_of_length_eq_add_one counted
      have othersCounted : others.length = sizes.length := by
        simpa using counted
      constructor
      · rintro ⟨place, found⟩
        obtain ⟨admitted, rest⟩ := offsetFrom_cons_eq_ok found
        exact .cons admitted
          ((inductionHypothesis othersCounted).mp ⟨place, rest⟩)
      · intro within
        obtain ⟨admitted, othersWithin⟩ := List.forall₂_cons.mp within
        rw [offsetFrom_cons admitted]
        exact (inductionHypothesis othersCounted).mpr othersWithin

/-- A tuple without a place has a first index outside its axis. -/
theorem offsetFrom_eq_error_iff
    {fault : IndexFault}
    (counted : indices.length = sizes.length) :
    offsetFrom axis start indices sizes = .error fault ↔
      ∃ skipped size index,
        Within (sizes.take skipped) (indices.take skipped) ∧
        sizes[skipped]? = some size ∧
        indices[skipped]? = some index ∧
        ¬ Admits size index ∧
        fault = .outOfRange (axis + skipped) index size := by
  induction sizes generalizing axis start indices with
  | nil =>
      obtain rfl := List.length_eq_zero_iff.mp counted
      simp [offsetFrom]
  | cons size sizes inductionHypothesis =>
      obtain ⟨index, others, rfl⟩ :=
        List.exists_cons_of_length_eq_add_one counted
      have othersCounted : others.length = sizes.length := by
        simpa using counted
      by_cases admitted : Admits size index
      · rw [offsetFrom_cons admitted, inductionHypothesis othersCounted]
        constructor
        · rintro ⟨skipped, other, bad, earlier, sizeHere, indexHere, outside,
              rfl⟩
          refine ⟨skipped + 1, other, bad, .cons admitted earlier, sizeHere,
            indexHere, outside, ?_⟩
          rw [Nat.add_right_comm, Nat.add_assoc]
        · rintro ⟨skipped, other, bad, earlier, sizeHere, indexHere, outside,
              rfl⟩
          cases skipped with
          | zero =>
              cases sizeHere
              cases indexHere
              exact absurd admitted outside
          | succ skipped =>
              refine ⟨skipped, other, bad, (List.forall₂_cons.mp earlier).2,
                sizeHere, indexHere, outside, ?_⟩
              rw [Nat.add_right_comm, Nat.add_assoc]
      · rw [offsetFrom_cons_of_not admitted]
        constructor
        · intro same
          cases same
          exact ⟨0, size, index, .nil, rfl, rfl, admitted, rfl⟩
        · rintro ⟨skipped, other, bad, earlier, sizeHere, indexHere, outside,
              rfl⟩
          cases skipped with
          | zero =>
              cases sizeHere
              cases indexHere
              rfl
          | succ skipped =>
              exact absurd (List.forall₂_cons.mp earlier).1 admitted

/--
The axes that are left can reach the places that belong to the axes before them.
-/
theorem offsetFrom_bounds
    (counted : indices.length = sizes.length)
    (found : offsetFrom axis start indices sizes = .ok place) :
    start * sizes.prod ≤ place ∧ place < (start + 1) * sizes.prod := by
  induction sizes generalizing axis start indices with
  | nil =>
      obtain rfl := List.length_eq_zero_iff.mp counted
      cases found
      simp
  | cons size sizes inductionHypothesis =>
      obtain ⟨index, others, rfl⟩ :=
        List.exists_cons_of_length_eq_add_one counted
      have othersCounted : others.length = sizes.length := by
        simpa using counted
      obtain ⟨⟨nonnegative, below⟩, rest⟩ := offsetFrom_cons_eq_ok found
      obtain ⟨lower, upper⟩ := inductionHypothesis othersCounted rest
      have digit : index.toInt.toNat + 1 ≤ size := by omega
      constructor
      · calc start * (size * sizes.prod)
            = start * size * sizes.prod := (Nat.mul_assoc ..).symm
          _ ≤ (start * size + index.toInt.toNat) * sizes.prod :=
              Nat.mul_le_mul_right _ (Nat.le_add_right ..)
          _ ≤ place := lower
      · calc place
            < (start * size + index.toInt.toNat + 1) * sizes.prod := upper
          _ ≤ (start * size + size) * sizes.prod :=
              Nat.mul_le_mul_right _ (by omega)
          _ = (start + 1) * (size * sizes.prod) := by
              rw [← Nat.succ_mul, Nat.mul_assoc]

/-- The number in front of the axes that are left. -/
theorem div_prod_of_offsetFrom
    (counted : indices.length = sizes.length)
    (found : offsetFrom axis start indices sizes = .ok place) :
    place / sizes.prod = start := by
  obtain ⟨lower, upper⟩ := offsetFrom_bounds counted found
  exact Nat.div_eq_of_lt_le lower upper

/--
Tuples behind different starts, or with the same start, are in the order of
their places.
-/
theorem offsetFrom_lt_iff
    {otherStart otherPlace : Nat}
    {others : List Int64}
    (counted : indices.length = sizes.length)
    (othersCounted : others.length = sizes.length)
    (found : offsetFrom axis start indices sizes = .ok place)
    (otherFound : offsetFrom axis otherStart others sizes = .ok otherPlace) :
    place < otherPlace ↔
      start < otherStart ∨ start = otherStart ∧ indices < others := by
  induction sizes generalizing axis start otherStart indices others with
  | nil =>
      obtain rfl := List.length_eq_zero_iff.mp counted
      obtain rfl := List.length_eq_zero_iff.mp othersCounted
      cases found
      cases otherFound
      simp
  | cons size sizes inductionHypothesis =>
      obtain ⟨index, rest, rfl⟩ := List.exists_cons_of_length_eq_add_one counted
      obtain ⟨other, otherRest, rfl⟩ :=
        List.exists_cons_of_length_eq_add_one othersCounted
      obtain ⟨⟨nonnegative, below⟩, restFound⟩ := offsetFrom_cons_eq_ok found
      obtain ⟨⟨otherNonnegative, otherBelow⟩, otherRestFound⟩ :=
        offsetFrom_cons_eq_ok otherFound
      have smaller : index.toInt.toNat < other.toInt.toNat ↔ index < other := by
        rw [Int64.lt_iff_toInt_lt]
        omega
      have same : index.toInt.toNat = other.toInt.toNat ↔ index = other := by
        rw [← Int64.toInt_inj]
        omega
      rw [inductionHypothesis (by simpa using counted)
        (by simpa using othersCounted) restFound
        otherRestFound, radix_lt_iff (by omega) (by omega),
          radix_eq_iff (by omega) (by omega),
        List.cons_lt_cons_iff, smaller, same]
      tauto

/-! The tuple at a place, as digits of mixed sizes. -/

/-- Digits of the axes that are read first, and then of the others. -/
theorem digits_append
    (place : Nat)
    (sizes others : List Nat) :
    digits place (sizes ++ others) =
      digits place sizes ++ digits (place / sizes.prod) others := by
  induction sizes generalizing place with
  | nil => simp [digits]
  | cons size sizes inductionHypothesis =>
      rw [List.cons_append, digits, inductionHypothesis, digits,
        List.cons_append, Nat.div_div_eq_div_mul, List.prod_cons]

/-- The first index of the tuple at a place, and those behind it. -/
theorem indicesAt_cons
    (size : Nat)
    (sizes : List Nat)
    (elements : Array Code)
    (place : Nat) :
    indicesAt ⟨size :: sizes, elements⟩ place =
      place / sizes.prod % size :: indicesAt ⟨sizes, elements⟩ place := by
  simp only [indicesAt, List.reverse_cons, digits_append, digits,
    List.reverse_append, List.reverse_nil, List.nil_append, List.cons_append,
    List.prod_reverse]

/-- A tuple is the one at its place. -/
theorem indicesAt_of_offsetFrom
    (counted : indices.length = sizes.length)
    (found : offsetFrom axis start indices sizes = .ok place)
    (elements : Array Code) :
    indices.map Int64.toInt =
      (indicesAt ⟨sizes, elements⟩ place).map Nat.cast := by
  induction sizes generalizing axis start indices with
  | nil =>
      obtain rfl := List.length_eq_zero_iff.mp counted
      rfl
  | cons size sizes inductionHypothesis =>
      obtain ⟨index, others, rfl⟩ :=
        List.exists_cons_of_length_eq_add_one counted
      have othersCounted : others.length = sizes.length := by
        simpa using counted
      obtain ⟨⟨nonnegative, below⟩, rest⟩ := offsetFrom_cons_eq_ok found
      have first : place / sizes.prod % size = index.toInt.toNat := by
        rw [div_prod_of_offsetFrom othersCounted rest,
          Nat.mul_add_mod_of_lt (by omega)]
      rw [indicesAt_cons, List.map_cons, List.map_cons,
        inductionHypothesis othersCounted rest, first,
        Int.toNat_of_nonneg nonnegative]

/-- The tuple at a place has that place. -/
theorem offsetFrom_of_indicesAt
    (positive : ∀ size ∈ sizes, 1 ≤ size)
    (elements : Array Code)
    (isTuple : indices.map Int64.toInt =
      (indicesAt ⟨sizes, elements⟩ place).map Nat.cast) :
    offsetFrom axis (place / sizes.prod) indices sizes = .ok place := by
  induction sizes generalizing axis indices with
  | nil =>
      obtain rfl : indices = [] := by simpa [indicesAt, digits] using isTuple
      simp [offsetFrom]
  | cons size sizes inductionHypothesis =>
      obtain ⟨sizePositive, sizesPositive⟩ := List.forall_mem_cons.mp positive
      rw [indicesAt_cons, List.map_cons] at isTuple
      obtain ⟨index, others, rfl, first, rest⟩ :=
        List.map_eq_cons_iff.mp isTuple
      have digit : place / sizes.prod % size < size := Nat.mod_lt _ sizePositive
      have admitted : Admits size index := by
        rw [Admits, first]
        omega
      -- The digits in front of the axis,
      -- followed by the one of the axis itself.
      have next : place / (size * sizes.prod) * size + index.toInt.toNat =
          place / sizes.prod := by
        rw [first, Nat.mul_comm size, ← Nat.div_div_eq_div_mul]
        exact Nat.div_add_mod' _ _
      rw [offsetFrom_cons admitted, List.prod_cons, next]
      exact inductionHypothesis sizesPositive rest

theorem length_digits
    (place : Nat)
    (sizes : List Nat) :
    (digits place sizes).length = sizes.length := by
  induction sizes generalizing place with
  | nil => rfl
  | cons size sizes inductionHypothesis => simp [digits, inductionHypothesis]

/-- An index of the tuple at a place is within its axis. -/
theorem exists_lt_of_mem_indicesAt
    (positive : ∀ size ∈ sizes, 1 ≤ size)
    {elements : Array Code}
    {index : Nat}
    (member : index ∈ indicesAt ⟨sizes, elements⟩ place) :
    ∃ size ∈ sizes, index < size := by
  induction sizes with
  | nil => simp [indicesAt, digits] at member
  | cons size sizes inductionHypothesis =>
      obtain ⟨sizePositive, sizesPositive⟩ := List.forall_mem_cons.mp positive
      rw [indicesAt_cons] at member
      rcases List.mem_cons.mp member with rfl | inRest
      · exact ⟨size, List.mem_cons_self, Nat.mod_lt _ sizePositive⟩
      · obtain ⟨other, isSize, less⟩ := inductionHypothesis sizesPositive inRest
        exact ⟨other, List.mem_cons_of_mem size isSize, less⟩

/-! Places computed in machine words, where a product can overflow. -/

/--
The place of a tuple, computed in machine words: nothing when a product or a sum
on the way is not a word.
-/
def wordOffsetFrom
    (axis start : Nat) :
    List Int64 → List Nat → Option (Except IndexFault Nat)
  | index :: indices, size :: sizes =>
      if Admits size index then
        let shifted := start * size
        if shifted < wordSize ∧ shifted + index.toInt.toNat < wordSize then
          wordOffsetFrom (axis + 1) (shifted + index.toInt.toNat) indices sizes
        else none
      else some (.error (.outOfRange axis index size))
  | _, _ => some (.ok start)

/-- Nothing exceeds a word when the number of all places does not. -/
theorem wordOffsetFrom_eq
    (positive : ∀ size ∈ sizes, 1 ≤ size)
    (fits : (start + 1) * sizes.prod < wordSize) :
    wordOffsetFrom axis start indices sizes =
      some (offsetFrom axis start indices sizes) := by
  induction sizes generalizing axis start indices with
  | nil => cases indices <;> rfl
  | cons size sizes inductionHypothesis =>
      cases indices with
      | nil => rfl
      | cons index indices =>
          obtain ⟨sizePositive, sizesPositive⟩ :=
            List.forall_mem_cons.mp positive
          by_cases admitted : Admits size index
          · have digit :
                start * size + index.toInt.toNat + 1 ≤ (start + 1) * size := by
              obtain ⟨nonnegative, below⟩ := admitted
              rw [Nat.succ_mul]
              omega
            have restFits :
                (start * size + index.toInt.toNat + 1) * sizes.prod <
                  wordSize := by
              calc (start * size + index.toInt.toNat + 1) * sizes.prod
                  ≤ (start + 1) * size * sizes.prod :=
                    Nat.mul_le_mul_right _ digit
                _ = (start + 1) * (size :: sizes).prod := by
                  rw [Nat.mul_assoc, List.prod_cons]
                _ < wordSize := fits
            have rest : 1 ≤ sizes.prod :=
              List.prod_pos_iff_forall_pos_nat.mpr sizesPositive
            have sum :=
              Nat.lt_of_le_of_lt (Nat.le_mul_of_pos_right _ rest) restFits
            rw [wordOffsetFrom, if_pos admitted, if_pos ⟨by omega, by omega⟩,
              inductionHypothesis sizesPositive restFits,
              offsetFrom_cons admitted]
          · rw [wordOffsetFrom, if_neg admitted,
              offsetFrom_cons_of_not admitted]

end Offsets

/-- The place of a tuple in an array, computed in machine words. -/
def wordOffset
    (grid : Grid)
    (indices : List Int64) :
    Option (Except IndexFault Nat) :=
  if indices.length = grid.rank then wordOffsetFrom 0 0 indices grid.dims
  else some (.error (.rank grid.rank indices.length))

section Arrays

variable
  {grid : Grid}
  {indices : List Int64}
  {place : Nat}

/--
A tuple has a place when it has an index for each axis, and each is within its
axis.
-/
theorem offset_eq_ok_iff :
    grid.offset indices = .ok place ↔
      indices.length = grid.dims.length ∧
        offsetFrom 0 0 indices grid.dims = .ok place := by
  unfold offset rank
  split
  · rename_i counted
    exact ⟨fun found => ⟨counted, found⟩, And.right⟩
  · rename_i miscounted
    exact ⟨nofun, fun found => absurd found.1 miscounted⟩

theorem exists_offset_iff :
    (∃ place, grid.offset indices = .ok place) ↔ Within grid.dims indices := by
  simp only [offset_eq_ok_iff, exists_and_left]
  constructor
  · rintro ⟨counted, found⟩
    exact (exists_offsetFrom_iff counted).mp found
  · intro within
    have counted := within.length_eq.symm
    exact ⟨counted, (exists_offsetFrom_iff counted).mpr within⟩

theorem offset_eq_error_iff
    {fault : IndexFault} :
    grid.offset indices = .error fault ↔ Refused grid.dims indices fault := by
  by_cases counted : indices.length = grid.dims.length
  · have same : grid.offset indices = offsetFrom 0 0 indices grid.dims :=
      if_pos counted
    rw [same, offsetFrom_eq_error_iff counted]
    constructor
    · rintro ⟨axis, size, index, earlier, sizeHere, indexHere, outside, rfl⟩
      rw [Nat.zero_add]
      exact .outOfRange counted earlier sizeHere indexHere outside
    · intro refused
      cases refused with
      | rank miscounted => exact absurd counted miscounted
      | @outOfRange axis size index _ earlier sizeHere indexHere outside =>
          exact ⟨axis, size, index, earlier, sizeHere, indexHere, outside,
            by rw [Nat.zero_add]⟩
  · have same :
        grid.offset indices = .error (.rank grid.dims.length indices.length) :=
      if_neg counted
    rw [same]
    constructor
    · intro isFault
      cases isFault
      exact .rank counted
    · intro refused
      cases refused with
      | rank => rfl
      | outOfRange alsoCounted => exact absurd alsoCounted counted

/-- A place is one of as many as the sizes say. -/
theorem lt_prod_of_offset
    (found : grid.offset indices = .ok place) :
    place < grid.dims.prod := by
  obtain ⟨counted, reached⟩ := offset_eq_ok_iff.mp found
  simpa using (offsetFrom_bounds counted reached).2

/-- A tuple is told by its place. -/
theorem map_toInt_of_offset
    (found : grid.offset indices = .ok place) :
    indices.map Int64.toInt = (grid.indicesAt place).map Nat.cast := by
  obtain ⟨counted, reached⟩ := offset_eq_ok_iff.mp found
  exact indicesAt_of_offsetFrom counted reached grid.elements

/-- Different tuples have different places. -/
theorem eq_of_offset
    {other : List Int64}
    (found : grid.offset indices = .ok place)
    (otherFound : grid.offset other = .ok place) :
    other = indices := by
  have sameNumbers : other.map Int64.toInt = indices.map Int64.toInt :=
    (map_toInt_of_offset otherFound).trans (map_toInt_of_offset found).symm
  exact List.map_injective_iff.mpr (fun _ _ => Int64.toInt_inj.mp) sameNumbers

/--
An element that is changed reads as its new program, and the others as before.
-/
theorem element_of_set
    {code : Code}
    {changed : Grid}
    (filled : grid.elements.size = grid.dims.prod)
    (succeeds : grid.set indices code = .ok changed)
    (other : List Int64) :
    changed.element other = if other =
      indices then .ok code else grid.element other := by
  obtain ⟨place, found, rfl⟩ := of_set succeeds
  have inside : place < grid.elements.size := filled ▸ lt_prod_of_offset found
  have sameOffset :
      offset { grid with elements := grid.elements.setIfInBounds place code }
        other =
        grid.offset other :=
    rfl
  simp only [element, sameOffset]
  split
  · rename_i same
    simp [same, found, Except.map, inside]
  · rename_i different
    cases otherFound : grid.offset other with
    | error fault => rfl
    | ok otherPlace =>
        have apart : place ≠ otherPlace := by
          rintro rfl
          exact different (eq_of_offset found otherFound)
        simp [Except.map, apart]

end Arrays

/-- The array that an assignment leaves, refused or not. -/
def assigned (grid : Grid) (indices : List Int64) (code : Code) : Grid :=
  match grid.set indices code with
  | .ok changed => changed
  | .error _ => grid

/--
An array whose sizes are positive and say how many elements it has, which is a
word.
-/
structure Full (grid : Grid) : Prop where
  positive : ∀ size ∈ grid.dims, 1 ≤ size
  filled : grid.elements.size = grid.dims.prod
  bounded : grid.dims.prod < wordSize

/-- The arrays that are declared. -/
theorem WellFormed.full
    {config : Config}
    {grid : Grid}
    (wellFormed : grid.WellFormed config) :
    grid.Full :=
  ⟨wellFormed.positive, wellFormed.filled, wellFormed.bounded⟩

/-- The arrays that are restored. -/
theorem Valid.full
    {grid : Grid}
    (valid : grid.Valid) :
    grid.Full := by
  obtain ⟨product, bounded⟩ := prod_of_checkedCapacity valid.filled
  exact ⟨valid.positive, product.symm, product ▸ bounded⟩

namespace Full

variable
  {grid : Grid}
  (full : grid.Full)
include full

/-- The place of a tuple is that of an element. -/
theorem lt_size_of_offset
    {indices : List Int64}
    {place : Nat}
    (found : grid.offset indices = .ok place) :
    place < grid.elements.size :=
  full.filled ▸ lt_prod_of_offset found

/--
No product and no sum on the way to a place or to a refusal exceeds a word.
-/
theorem wordOffset_eq (indices : List Int64) :
    grid.wordOffset indices = some (grid.offset indices) := by
  unfold wordOffset offset
  split
  · exact wordOffsetFrom_eq full.positive (by simpa using full.bounded)
  · rfl

/--
Reading and writing go to the element that is stored at the place of a tuple.
-/
theorem reaches
    {indices : List Int64}
    {place : Nat}
    (found : grid.offset indices = .ok place) :
    ∃ inside : place < grid.elements.size,
      grid.element indices = .ok grid.elements[place] ∧
      ∀ code, grid.set indices code =
        .ok ⟨grid.dims, grid.elements.set place code inside⟩ := by
  have inside := full.lt_size_of_offset found
  refine ⟨inside, ?_, fun code => ?_⟩
  · simp [element, found, Except.map, inside]
  · simp [set, found, Except.map, Array.setIfInBounds, inside]

end Full

/-- How index tuples and the places of an array's elements belong together. -/
structure Addressed (grid : Grid) : Prop where
  /--
  A tuple has a place when it has one index for each axis, and each is within
  its axis.
  -/
  accepts : ∀ indices,
    (∃ place, grid.offset indices = .ok place) ↔ Within grid.dims indices
  /--
  Other tuples are refused for their length, or for the first index outside its
  axis.
  -/
  refuses : ∀ indices fault,
    grid.offset indices = .error fault ↔ Refused grid.dims indices fault
  /--
  No product and no sum on the way to a place or to a refusal exceeds a word.
  -/
  inWords : ∀ indices, grid.wordOffset indices = some (grid.offset indices)
  /-- Places are in the lexicographic order of their tuples. -/
  ordered :
    ∀ {indices others : List Int64} {place other : Nat},
      grid.offset indices = .ok place → grid.offset others = .ok other →
        (place < other ↔ indices < others)
  /--
  The tuple of a place and the place of a tuple are inverse to each other.
  -/
  inverse :
    ∀ {indices : List Int64} {place : Nat}, place < grid.elements.size →
      (grid.offset indices = .ok place ↔
        indices.map Int64.toInt = (grid.indicesAt place).map Nat.cast)
  /--
  Every place has one tuple, and no other.  An index is a signed word: an axis
  with more than `2 ^ 63` elements, which no memory can hold, would have some
  without index.
  -/
  bijective :
    (∀ size ∈ grid.dims, size ≤ 2 ^ 63) →
      ∀ place < grid.elements.size, ∃! indices, grid.offset indices = .ok place
  /-- Reading and writing go to an element at the place of the tuple. -/
  reaches :
    ∀ {indices : List Int64} {place : Nat}, grid.offset indices = .ok place →
      ∃ inside : place < grid.elements.size,
        grid.element indices = .ok grid.elements[place] ∧
        ∀ code, grid.set indices code =
          .ok ⟨grid.dims, grid.elements.set place code inside⟩
  /-- Reading and writing are refused with the tuple. -/
  misses :
    ∀ {indices : List Int64} {fault : IndexFault},
      grid.offset indices = .error fault →
      grid.element indices = .error fault ∧ ∀ code,
        grid.set indices code = .error fault
  /--
  An assignment that is not refused changes what its tuple reads as; the rest
  stays.
  -/
  rewrites :
    ∀ indices code other,
      (grid.assigned indices code).element other =
        if other = indices ∧ Within grid.dims indices then .ok code
        else grid.element other

/--
Index tuples address the elements of an array one to one and in order, for every
array whose sizes are positive and agree with the number of its elements.
-/
theorem addressed_by_index_tuples
    {grid : Grid}
    (full : grid.Full) :
    grid.Addressed := by
  have inverse {indices : List Int64} {place : Nat}
      (small : place < grid.elements.size) :
      grid.offset indices = .ok place ↔
        indices.map Int64.toInt = (grid.indicesAt place).map Nat.cast := by
    refine ⟨map_toInt_of_offset, fun isTuple => ?_⟩
    have sameLength : indices.length = grid.dims.length := by
      have lengths := congrArg List.length isTuple
      simpa [indicesAt, length_digits] using lengths
    have reached :
        offsetFrom 0 (place / grid.dims.prod) indices grid.dims = .ok place :=
      offsetFrom_of_indicesAt full.positive grid.elements isTuple
    rw [Nat.div_eq_of_lt (full.filled ▸ small)] at reached
    exact offset_eq_ok_iff.mpr ⟨sameLength, reached⟩
  refine
    { accepts := fun indices => exists_offset_iff
      refuses := fun indices fault => offset_eq_error_iff
      inWords := full.wordOffset_eq
      ordered := ?ordered
      inverse := inverse
      bijective := ?bijective
      reaches := full.reaches
      misses := ?misses
      rewrites := ?rewrites }
  case ordered =>
    intro indices others place other found otherFound
    obtain ⟨counted, reached⟩ := offset_eq_ok_iff.mp found
    obtain ⟨othersCounted, otherReached⟩ := offset_eq_ok_iff.mp otherFound
    simpa using offsetFrom_lt_iff counted othersCounted reached otherReached
  case bijective =>
    intro words place small
    have isTuple :
        ((grid.indicesAt place).map Int64.ofNat).map Int64.toInt =
          (grid.indicesAt place).map Nat.cast := by
      rw [List.map_map]
      refine List.map_congr_left fun index member => ?_
      obtain ⟨size, isSize, less⟩ :=
        exists_lt_of_mem_indicesAt full.positive member
      exact Int64.toInt_ofNat_of_lt
        (Nat.lt_of_lt_of_le less (words size isSize))
    have found := (inverse small).mpr isTuple
    exact ⟨_, found, fun other otherFound => eq_of_offset found otherFound⟩
  case misses =>
    intro indices fault refused
    simp [element, set, refused, Except.map]
  case rewrites =>
    intro indices code other
    unfold assigned
    cases outcome : grid.set indices code with
    | ok changed =>
        obtain ⟨place, found, -⟩ := of_set outcome
        have within := exists_offset_iff.mp ⟨place, found⟩
        simp only [element_of_set full.filled outcome, within, and_true]
    | error fault =>
        have outside : ¬ Within grid.dims indices := by
          intro within
          obtain ⟨place, found⟩ := exists_offset_iff.mpr within
          simp [set, found, Except.map] at outcome
        simp [outside]

/--
The last element of an array of two rows is the only one an assignment to it
changes.
-/
theorem addressed_by_index_tuples_matrix :
    ∃ grid : Grid,
      grid.Full ∧ grid.dims = [2, 3] ∧ grid.Addressed ∧
        grid.offset [1, 2] = .ok 5 ∧
        grid.indicesAt 5 = [1, 2] ∧
        grid.offset [1, 3] = .error (.outOfRange 1 3 3) ∧
        (∀ place < grid.elements.size, ∃! indices,
          grid.offset indices = .ok place) ∧
        ∀ code, (grid.assigned [1, 2] code).element [1, 2] = .ok code := by
  have full : (ofElements [2, 3] [Code.push (.int 7)]).Full :=
    Valid.full (by decide)
  have addressed := addressed_by_index_tuples full
  have inWords : ∀ size ∈ [2, 3], size ≤ 2 ^ 63 := by decide
  refine ⟨_, full, rfl, addressed, by decide, by decide, by decide,
    addressed.bijective inWords, fun code => ?_⟩
  rw [addressed.rewrites, if_pos ⟨rfl, by decide⟩]

end Grid

end Formulary
