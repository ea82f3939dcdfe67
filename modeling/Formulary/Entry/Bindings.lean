import Formulary.Entry

namespace Formulary

/-!
# Bindings

One scope: entries in the order in which their names were first bound.
Binding a name again replaces its entry where it stands.
-/

/-- Entries in order of first binding. -/
structure Bindings where
  entries : List Entry
deriving Repr, DecidableEq, Inhabited

namespace Bindings

def empty : Bindings :=
  ⟨[]⟩

/-- The entry bound to a name. -/
def get? (bindings : Bindings) (name : String) : Option Entry :=
  bindings.entries.find? fun entry => entry.name = name

def contains (bindings : Bindings) (name : String) : Bool :=
  (bindings.get? name).isSome

def names (bindings : Bindings) : List String :=
  bindings.entries.map Entry.name

def size (bindings : Bindings) : Nat :=
  bindings.entries.length

def isEmpty (bindings : Bindings) : Bool :=
  bindings.entries.isEmpty

/--
A list of entries with one more bound, in place of an entry of the same name.
-/
def insertInto (entry : Entry) : List Entry → List Entry
  | [] => [entry]
  | first :: rest =>
      if first.name = entry.name then entry :: rest
      else first :: insertInto entry rest

/-- Bind an entry under its own name. -/
def insert (bindings : Bindings) (entry : Entry) : Bindings :=
  ⟨insertInto entry bindings.entries⟩

/-- A name that has just been bound has its new entry. -/
@[simp]
theorem get?_insert_self (bindings : Bindings) (entry : Entry) :
    (bindings.insert entry).get? entry.name = some entry := by
  obtain ⟨entries⟩ := bindings
  simp only [get?, insert]
  induction entries with
  | nil => simp [insertInto]
  | cons first rest ih =>
      by_cases replaced : first.name = entry.name
      · simp [insertInto, replaced]
      · simpa [insertInto, replaced] using ih

/-- Binding a name leaves the others as they are. -/
theorem get?_insert_of_ne
    (bindings : Bindings)
    {entry : Entry}
    {name : String}
    (different : entry.name ≠ name) :
    (bindings.insert entry).get? name = bindings.get? name := by
  obtain ⟨entries⟩ := bindings
  simp only [get?, insert]
  induction entries with
  | nil => simp [insertInto, different]
  | cons first rest ih =>
      by_cases replaced : first.name = entry.name
      · simp [insertInto, replaced, different]
      · by_cases found : first.name = name
        · simp [insertInto, found, Ne.symm different]
        · simpa [insertInto, replaced, found] using ih

/-- A new name comes last, and one that is bound keeps its place. -/
theorem names_insert (bindings : Bindings) (entry : Entry) :
    (bindings.insert entry).names =
      if entry.name ∈ bindings.names then bindings.names
      else bindings.names ++ [entry.name] := by
  obtain ⟨entries⟩ := bindings
  simp only [names, insert]
  induction entries with
  | nil => simp [insertInto]
  | cons first rest ih =>
      by_cases replaced : first.name = entry.name
      · simp [insertInto, replaced]
      · have distinct : entry.name ≠ first.name := Ne.symm replaced
        simp only [insertInto, replaced, if_false, List.map_cons, ih,
          List.mem_cons, distinct, false_or]
        by_cases known : entry.name ∈ rest.map Entry.name
        · simp only [known, if_true]
        · simp only [known, if_false, List.cons_append]

/-- Bind entries one after the other. -/
def ofEntries (entries : List Entry) : Bindings :=
  entries.foldl insert empty

/--
Bind parameters to arguments; of a repeated parameter the last argument counts.
-/
def ofArguments (params : List String) (arguments : List Cell) : Bindings :=
  ofEntries (List.zipWith Entry.argument params arguments)

end Bindings

end Formulary
