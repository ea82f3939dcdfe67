import Formulary.Entry.Grid

namespace Formulary

/-!
# Arrays that are built and changed

What a declared array, one of its elements and a changed element look like.
-/

namespace Grid

/-- The elements of a declared array are initializers or fillers. -/
theorem mem_ofElements
    {dims : List Nat}
    {elements : List Code}
    {code : Code}
    (member : code ∈ (ofElements dims elements).elements.toList) :
    code ∈ elements ∨ code = blank := by
  rcases List.mem_append.mp member with written | filler
  · exact .inl (List.mem_of_mem_take written)
  · exact .inr (List.eq_of_mem_replicate filler)

/-- The program at an index is one of the elements, or the filler. -/
theorem mem_of_element
    {grid : Grid}
    {indices : List Int64}
    {code : Code}
    (found : grid.element indices = .ok code) :
    code ∈ grid.elements.toList ∨ code = blank := by
  simp only [element] at found
  cases offset : grid.offset indices with
  | error fault =>
      rw [offset] at found
      cases found
  | ok place =>
      rw [offset] at found
      obtain rfl : grid.elements.getD place blank = code := by
        simpa [Except.map] using found
      by_cases inside : place < grid.elements.size
      · rw [Array.getD_eq_getD_getElem?, Array.getElem?_eq_getElem inside,
          Option.getD_some]
        exact .inl (Array.getElem_mem_toList inside)
      · rw [Array.getD_eq_getD_getElem?, Array.getElem?_eq_none (by omega),
          Option.getD_none]
        exact .inr rfl

/-- A changed array differs in one place at most. -/
theorem of_set
    {grid changed : Grid}
    {indices : List Int64}
    {code : Code}
    (succeeds : grid.set indices code = .ok changed) :
    ∃ offset,
      grid.offset indices = .ok offset ∧
        changed = { grid with elements :=
          grid.elements.setIfInBounds offset code } := by
  simp only [set] at succeeds
  cases found : grid.offset indices with
  | error fault =>
      rw [found] at succeeds
      cases succeeds
  | ok offset =>
      rw [found] at succeeds
      cases succeeds
      exact ⟨offset, rfl, rfl⟩

end Grid

end Formulary
