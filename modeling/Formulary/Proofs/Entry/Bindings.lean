import Formulary.Entry.Scopes

namespace Formulary

/-!
# Which entries a scope holds

Membership in a scope after binding entries, and what a search in a scope or in
a stack of scopes can find.
-/

namespace Bindings

/-- An entry found under a name has that name and is one of the entries. -/
theorem mem_of_get?
    {bindings : Bindings}
    {name : String}
    {entry : Entry}
    (found : bindings.get? name = some entry) :
    entry ∈ bindings.entries ∧ entry.name = name := by
  refine ⟨List.mem_of_find?_eq_some found, ?_⟩
  simpa using List.find?_some found

/-- A name is found exactly when it is one of the names. -/
theorem get?_eq_none_iff
    {bindings : Bindings}
    {name : String} :
    bindings.get? name = none ↔ name ∉ bindings.names := by
  simp [get?, names, List.find?_eq_none]

/-- Binding an entry adds nothing else. -/
theorem mem_insert
    {bindings : Bindings}
    {entry item : Entry}
    (member : item ∈ (bindings.insert entry).entries) :
    item = entry ∨ item ∈ bindings.entries := by
  obtain ⟨entries⟩ := bindings
  simp only [insert] at member ⊢
  induction entries with
  | nil =>
      exact .inl (by simpa [insertInto] using member)
  | cons first rest inductionHypothesis =>
      by_cases replaced : first.name = entry.name
      · simp only [insertInto, replaced, if_true, List.mem_cons] at member
        rcases member with isNew | inRest
        · exact .inl isNew
        · exact .inr (List.mem_cons_of_mem first inRest)
      · simp only [insertInto, replaced, if_false, List.mem_cons] at member
        rcases member with isFirst | inRest
        · exact .inr (by simp [isFirst])
        · rcases inductionHypothesis inRest with isNew | old
          · exact .inl isNew
          · exact .inr (List.mem_cons_of_mem first old)

/-- What holds of every entry and of a new one holds after binding it. -/
theorem forall_mem_insert
    {bindings : Bindings}
    {entry : Entry}
    {holds : Entry → Prop}
    (new : holds entry)
    (old : ∀ item ∈ bindings.entries, holds item) :
    ∀ item ∈ (bindings.insert entry).entries, holds item := by
  intro item member
  rcases mem_insert member with rfl | known
  · exact new
  · exact old item known

/-- The entry bound last is held. -/
theorem mem_insert_self
    (bindings : Bindings)
    (entry : Entry) :
    entry ∈ (bindings.insert entry).entries :=
  (mem_of_get? (get?_insert_self bindings entry)).1

/-- Names stay distinct when an entry is bound. -/
theorem nodup_names_insert
    {bindings : Bindings}
    (distinct : bindings.names.Nodup)
    (entry : Entry) :
    (bindings.insert entry).names.Nodup := by
  rw [names_insert]
  split
  · exact distinct
  · rename_i new
    rw [List.nodup_append]
    refine ⟨distinct, by simp, ?_⟩
    intro name known other isNew
    rw [List.mem_singleton] at isNew
    intro same
    exact new (isNew ▸ same ▸ known)

/-- The names after an entry is bound. -/
theorem mem_names_insert
    {bindings : Bindings}
    {entry : Entry}
    {name : String} :
    name ∈ (bindings.insert entry).names ↔
      name = entry.name ∨ name ∈ bindings.names := by
  rw [names_insert]
  split
  · rename_i known
    constructor
    · exact .inr
    · rintro (same | old)
      · exact same ▸ known
      · exact old
  · simp [or_comm]

/--
Names that are known to come in order of first declaration still do with one
more.
-/
theorem names_insert_of_eraseDups
    {bindings : Bindings}
    {declared : List String}
    (known : bindings.names = declared.eraseDups)
    (entry : Entry) :
    (bindings.insert entry).names = (declared ++ [entry.name]).eraseDups := by
  rw [names_insert, known, List.eraseDups_append]
  by_cases again : entry.name ∈ declared
  · simp [List.mem_eraseDups, List.removeAll, again]
  · simp [List.mem_eraseDups, List.removeAll, again, List.eraseDups_cons]

/-- With distinct names, each entry is the one its name finds. -/
theorem get?_of_mem
    {bindings : Bindings}
    (distinct : bindings.names.Nodup)
    {entry : Entry}
    (member : entry ∈ bindings.entries) :
    bindings.get? entry.name = some entry := by
  obtain ⟨entries⟩ := bindings
  simp only [get?, names] at distinct ⊢
  induction entries with
  | nil =>
      cases member
  | cons first rest inductionHypothesis =>
      rw [List.map_cons, List.nodup_cons] at distinct
      rcases List.mem_cons.mp member with isFirst | inRest
      · simp [isFirst]
      · have different : first.name ≠ entry.name := by
          intro same
          exact distinct.1 (same ▸ List.mem_map_of_mem inRest)
        rw [List.find?_cons_of_neg (by simpa using different)]
        exact inductionHypothesis distinct.2 inRest

/-- Entries bound one after the other come from the list that was bound. -/
theorem mem_ofEntries
    {entries : List Entry}
    {item : Entry}
    (member : item ∈ (ofEntries entries).entries) :
    item ∈ entries := by
  have grown :
      ∀ (entries : List Entry) (bindings : Bindings),
        item ∈ (entries.foldl insert bindings).entries →
          item ∈ bindings.entries ∨ item ∈ entries := by
    intro entries
    induction entries with
    | nil =>
        intro bindings member
        exact .inl member
    | cons first rest inductionHypothesis =>
        intro bindings member
        rcases inductionHypothesis (bindings.insert first) member with
            bound | inRest
        · rcases mem_insert bound with isFirst | old
          · exact .inr (by simp [isFirst])
          · exact .inl old
        · exact .inr (List.mem_cons_of_mem first inRest)
  rcases grown entries empty member with old | new
  · cases old
  · exact new

/-- The names of entries bound one after the other, each where it came first. -/
theorem names_ofEntries (entries : List Entry) :
    (ofEntries entries).names = (entries.map Entry.name).eraseDups := by
  have grown :
      ∀ (entries : List Entry) (bindings : Bindings) (declared : List String),
        bindings.names = declared.eraseDups →
          (entries.foldl insert bindings).names =
            (declared ++ entries.map Entry.name).eraseDups := by
    intro entries
    induction entries with
    | nil =>
        intro bindings declared known
        simpa using known
    | cons first rest inductionHypothesis =>
        intro bindings declared known
        rw [List.foldl_cons,
          inductionHypothesis _ _ (names_insert_of_eraseDups known first),
          List.map_cons,
          List.append_assoc, List.singleton_append]
  exact grown entries empty [] rfl

/-- Binding entries with distinct names keeps them in order. -/
theorem ofEntries_of_nodup
    {bindings : Bindings}
    (distinct : bindings.names.Nodup) :
    ofEntries bindings.entries = bindings := by
  have appended :
      ∀ (later earlier : List Entry),
        ((earlier ++ later).map Entry.name).Nodup →
        later.foldl insert ⟨earlier⟩ = ⟨earlier ++ later⟩ := by
    intro later
    induction later with
    | nil =>
        intro earlier _
        simp
    | cons entry rest inductionHypothesis =>
        intro earlier distinct
        have fresh : insertInto entry earlier = earlier ++ [entry] := by
          have new : ∀ other ∈ earlier, other.name ≠ entry.name := by
            intro other member same
            rw [List.map_append, List.nodup_append] at distinct
            exact distinct.2.2 other.name
              (List.mem_map_of_mem member) entry.name (by simp) same
          clear distinct inductionHypothesis
          induction earlier with
          | nil => rfl
          | cons first others inductionHypothesis =>
              have different := new first List.mem_cons_self
              simp only [insertInto, different, if_false, List.cons_append]
              rw [inductionHypothesis fun other member =>
                new other (List.mem_cons_of_mem first member)]
        rw [List.foldl_cons, insert, fresh,
          inductionHypothesis (earlier ++ [entry]) (by simpa using distinct)]
        simp
  exact appended bindings.entries [] (by simpa [names] using distinct)

/-- Entries of a frame are the arguments of a call. -/
theorem mem_ofArguments
    {params : List String}
    {arguments : List Cell}
    {item : Entry}
    (member : item ∈ (ofArguments params arguments).entries) :
    ∃ param cell, cell ∈ arguments ∧ item = Entry.argument param cell := by
  have zipped := mem_ofEntries member
  rw [← List.map_uncurry_zip_eq_zipWith, List.mem_map] at zipped
  obtain ⟨⟨param, cell⟩, paired, rfl⟩ := zipped
  exact ⟨param, cell, (List.of_mem_zip paired).2, rfl⟩

end Bindings

namespace Scopes

/--
What holds of the entries of all frames still does in a call, if it holds of
arguments.
-/
theorem forall_frames_push
    {scopes : Scopes}
    {holds : Entry → Prop}
    (outside : ∀ frame ∈ scopes.frames, ∀ entry ∈ frame.entries, holds entry)
    (params : List String)
    {arguments : List Cell}
    (ofArgument :
      ∀ cell ∈ arguments, ∀ param, holds (Entry.argument param cell)) :
    ∀ frame ∈ (scopes.push (Bindings.ofArguments params arguments)).frames,
      ∀ entry ∈ frame.entries, holds entry := by
  intro frame member entry held
  rcases List.mem_cons.mp member with rfl | old
  · obtain ⟨param, cell, isArgument, rfl⟩ := Bindings.mem_ofArguments held
    exact ofArgument cell isArgument param
  · exact outside frame old entry held

/-- A frame or the global scope binds a name to an entry. -/
def Binds (scopes : Scopes) (name : String) (entry : Entry) : Prop :=
  (∃ frame ∈ scopes.frames, frame.get? name = some entry) ∨
    scopes.globals.get? name = some entry

theorem Binds.mem
    {scopes : Scopes}
    {name : String}
    {entry : Entry}
    (binds : scopes.Binds name entry) :
    (∃ frame ∈ scopes.frames, entry ∈ frame.entries) ∨
      entry ∈ scopes.globals.entries := by
  rcases binds with ⟨frame, member, bound⟩ | bound
  · exact .inl ⟨frame, member, (Bindings.mem_of_get? bound).1⟩
  · exact .inr (Bindings.mem_of_get? bound).1

theorem Binds.name_eq
    {scopes : Scopes}
    {name : String}
    {entry : Entry}
    (binds : scopes.Binds name entry) :
    entry.name = name := by
  rcases binds with ⟨frame, member, bound⟩ | bound
  · exact (Bindings.mem_of_get? bound).2
  · exact (Bindings.mem_of_get? bound).2

/-- A search of every scope finds what a frame or the global scope binds. -/
theorem binds_of_find?
    {scopes : Scopes}
    {name : String}
    {entry : Entry}
    (found : scopes.find? name = some entry) :
    scopes.Binds name entry := by
  simp only [find?, Option.orElse_eq_orElse, Option.orElse_eq_or,
    Option.or_eq_some_iff] at found
  rcases found with inFrame | ⟨-, inGlobals⟩
  · exact .inl (List.exists_of_findSome?_eq_some inFrame)
  · exact .inr inGlobals

theorem mem_of_find?
    {scopes : Scopes}
    {name : String}
    {entry : Entry}
    (found : scopes.find? name = some entry) :
    (∃ frame ∈ scopes.frames, entry ∈ frame.entries) ∨
      entry ∈ scopes.globals.entries :=
  (binds_of_find? found).mem

/-- A scope known by its index is a frame or the global one. -/
theorem mem_of_scope?
    {scopes : Scopes}
    {index : Nat}
    {bindings : Bindings}
    (found : scopes.scope? index = some bindings) :
    bindings ∈ scopes.frames ∨ bindings = scopes.globals := by
  cases index with
  | zero =>
      simp only [scope?, Option.some.injEq] at found
      exact .inr found.symm
  | succ index =>
      simp only [scope?] at found
      exact .inl (List.mem_reverse.mp (List.mem_of_getElem? found))

/-- The scope that is entered last is the one at the depth before. -/
theorem scope?_push
    (scopes : Scopes)
    (frame : Bindings) :
    (scopes.push frame).scope? scopes.depth = some frame := by
  simp [scope?, depth, push]

/-- A search of one scope and the global one finds what either of them binds. -/
theorem binds_of_resolve?
    {scopes : Scopes}
    {frame : Option Nat}
    {name : String}
    {entry : Entry}
    (found : scopes.resolve? frame name = some entry) :
    scopes.Binds name entry := by
  simp only [resolve?, Option.orElse_eq_orElse, Option.orElse_eq_or,
    Option.or_eq_some_iff] at found
  rcases found with inFrame | ⟨-, inGlobals⟩
  · simp only [Option.bind_eq_bind, Option.bind_eq_some_iff] at inFrame
    obtain ⟨index, -, bindings, scope, bound⟩ := inFrame
    rcases mem_of_scope? scope with isFrame | isGlobal
    · exact .inl ⟨bindings, isFrame, bound⟩
    · exact .inr (isGlobal ▸ bound)
  · exact .inr inGlobals

end Scopes

end Formulary
