import Formulary.Failure
import Mathlib.Algebra.Ring.Nat
import Mathlib.Data.List.Chain

namespace Formulary

/-!
# Listings of call stacks

A call stack is listed by its maximal runs of equal names.  The runs are the
only ones that are apart, give back the call stack and start where the frames
before them end.  The lines of a listing show all runs, or the first and the
last ones around the number of frames between them, so that every frame is
accounted for.
-/

namespace FrameRun

/-- The frames that a run stands for. -/
def frames (run : FrameRun) : List String :=
  List.replicate run.count run.name

/-- The maximal runs of a call stack whose first frame has a given position. -/
structure Maximal
    (start : Nat)
    (stack : List String)
    (runs : List FrameRun) :
    Prop where
  filled : ∀ run ∈ runs, 0 < run.count
  apart : runs.IsChain fun run next => run.name ≠ next.name
  expanded : runs.flatMap frames = stack
  counted :
    ∀ before run after,
      runs = before ++ run :: after → run.start = start + total before

theorem total_cons
    (run : FrameRun)
    (runs : List FrameRun) :
    total (run :: runs) = run.count + total runs :=
  rfl

theorem total_append (runs others : List FrameRun) :
    total (runs ++ others) = total runs + total others := by
  induction runs with
  | nil => exact (Nat.zero_add _).symm
  | cons run runs inductionHypothesis =>
      rw [List.cons_append, total_cons, total_cons, inductionHypothesis,
        Nat.add_assoc]

/-- Runs have as many frames as they stand for. -/
theorem total_eq_length (runs : List FrameRun) :
    total runs = (runs.flatMap frames).length := by
  induction runs with
  | nil => rfl
  | cons run runs inductionHypothesis =>
      rw [total_cons, List.flatMap_cons, List.length_append,
        inductionHypothesis, frames, List.length_replicate]

namespace Maximal

variable
  {start : Nat}
  {stack : List String}
  {runs : List FrameRun}

theorem nil (start : Nat) : Maximal start [] [] where
  filled := by simp
  apart := .nil
  expanded := rfl
  counted := by simp

/-- The first run of a call stack, and the runs of what follows it. -/
theorem cons_iff
    {run : FrameRun} :
    Maximal start stack (run :: runs) ↔
      run.start = start ∧
      0 < run.count ∧
      (∀ next ∈ runs.head?, run.name ≠ next.name) ∧
      ∃ rest, stack = run.frames ++ rest ∧
        Maximal (start + run.count) rest runs := by
  constructor
  · rintro ⟨filled, apart, expanded, counted⟩
    refine ⟨counted [] run runs rfl, filled run List.mem_cons_self, ?_, _,
      expanded.symm, ?_⟩
    · exact (List.isChain_cons.mp apart).1
    · refine ⟨fun next member => filled next (List.mem_cons_of_mem run member),
        apart.tail, rfl, ?_⟩
      rintro before next after rfl
      have sum := counted (run :: before) next after rfl
      rw [sum, total_cons, Nat.add_assoc]
  · rintro ⟨rfl, some, differs, rest, rfl, filled, apart, rfl, counted⟩
    refine ⟨List.forall_mem_cons.mpr ⟨some, filled⟩,
      List.isChain_cons.mpr ⟨differs, apart⟩, rfl, ?_⟩
    intro before next after shape
    cases before with
    | nil =>
        cases shape
        rfl
    | cons first before =>
        cases shape
        rw [counted before next after rfl, total_cons, Nat.add_assoc]

/--
A frame in front that is not named like the first run is a run of its own.
-/
theorem separate
    {name : String}
    (maximal : Maximal (start + 1) stack runs)
    (differs : ∀ next ∈ runs.head?, name ≠ next.name) :
    Maximal start (name :: stack) (⟨start, name, 1⟩ :: runs) :=
  cons_iff.mpr ⟨rfl, Nat.one_pos, differs, stack, rfl, maximal⟩

/-- A frame in front that is named like the first run makes that run longer. -/
theorem lengthen
    {first : FrameRun}
    (maximal : Maximal (start + 1) stack (first :: runs)) :
    Maximal start (first.name :: stack)
      (⟨start, first.name, first.count + 1⟩ :: runs) := by
  obtain ⟨-, -, differs, rest, rfl, others⟩ := cons_iff.mp maximal
  refine cons_iff.mpr ⟨rfl, Nat.succ_pos _, differs, rest, rfl, ?_⟩
  rw [Nat.add_assoc, Nat.add_comm 1] at others
  exact others

end Maximal

/-- The runs that are found are maximal. -/
theorem maximal_runsFrom
    (start : Nat)
    (stack : List String) :
    Maximal start stack (runsFrom start stack) := by
  induction stack generalizing start with
  | nil => exact .nil start
  | cons name rest inductionHypothesis =>
      have later := inductionHypothesis (start + 1)
      rw [runsFrom]
      generalize runsFrom (start + 1) rest = runs at later
      cases runs with
      | nil => exact later.separate (by simp)
      | cons next others =>
          by_cases same : next.name = name
          · subst same
            simpa using later.lengthen
          · simp only [same, if_false]
            exact later.separate (by simpa using fun isNext => same isNext.symm)

/-- Frames of one name, up to one of another name, are found to be one run. -/
theorem runsFrom_replicate_append
    {name : String}
    {start count : Nat}
    {rest : List String}
    (differs :
      ∀ next ∈ (runsFrom (start + (count + 1)) rest).head?, name ≠ next.name) :
    runsFrom start (List.replicate (count + 1) name ++ rest) =
      ⟨start, name, count + 1⟩ :: runsFrom (start + (count + 1)) rest := by
  induction count generalizing start with
  | zero =>
      rw [List.replicate_one, List.singleton_append, runsFrom]
      generalize runsFrom (start + 1) rest = runs at differs
      cases runs with
      | nil => rfl
      | cons next others =>
          have distinct : next.name ≠ name :=
            fun same => differs next rfl same.symm
          simp [distinct]
  | succ count inductionHypothesis =>
      have shifted : start + (count + 1 + 1) = start + 1 + (count + 1) := by
        omega
      rw [shifted] at differs ⊢
      rw [List.replicate_succ, List.cons_append, runsFrom,
        inductionHypothesis differs]
      simp

/--
There are no other maximal runs than those that are found: where a run ends, the
next frame has another name, so that its frames are found to be one run, too.
-/
theorem Maximal.eq_runsFrom
    {start : Nat}
    {stack : List String}
    {runs : List FrameRun}
    (maximal : Maximal start stack runs) :
    runs = runsFrom start stack := by
  induction runs generalizing start stack with
  | nil =>
      have empty := maximal.expanded
      cases empty
      rfl
  | cons run others inductionHypothesis =>
      obtain ⟨rfl, some, differs, rest, rfl, later⟩ := cons_iff.mp maximal
      have found := inductionHypothesis later
      obtain ⟨start, name, count⟩ := run
      obtain ⟨count, rfl⟩ := Nat.exists_eq_add_of_lt some
      simp only [Nat.zero_add, frames] at found differs ⊢
      rw [runsFrom_replicate_append (found ▸ differs), ← found]

theorem maximal_iff
    {start : Nat}
    {stack : List String}
    {runs : List FrameRun} :
    Maximal start stack runs ↔ runs = runsFrom start stack :=
  ⟨Maximal.eq_runsFrom, fun found => found ▸ maximal_runsFrom start stack⟩

/-! The lines of a listing, and the frames that are only counted. -/

/-- The line that stands for frames that are only counted. -/
def moreLine (count : Nat) : String :=
  "... " ++ toString count ++ " more frames"

/--
What a listing shows: the first runs, the number of frames behind them that are
only counted, if there are any, and the last runs.
-/
structure Excerpt where
  first : List FrameRun
  omitted : Option Nat
  last : List FrameRun

namespace Excerpt

def lines (excerpt : Excerpt) : List String :=
  excerpt.first.map line ++ excerpt.omitted.toList.map moreLine ++
    excerpt.last.map line

/-- The frames of the runs that are shown and those that are only counted. -/
def total (excerpt : Excerpt) : Nat :=
  FrameRun.total excerpt.first + excerpt.omitted.getD 0 +
    FrameRun.total excerpt.last

/-- Up to 16 runs are all shown; of more, the first 8 and the last 8. -/
inductive Of : List FrameRun → Excerpt → Prop where
  | all
      {runs : List FrameRun}
      (few : runs.length ≤ 16) :
      Of runs ⟨runs, none, []⟩
  | ends
      {first middle last : List FrameRun}
      (firstCount : first.length = 8)
      (middleGiven : middle ≠ [])
      (lastCount : last.length = 8) :
      Of (first ++ middle ++ last) ⟨first, some (FrameRun.total middle), last⟩

variable
  {runs : List FrameRun}
  {excerpt : Excerpt}

theorem Of.length_lines_le
    (isExcerpt : Of runs excerpt) :
    excerpt.lines.length ≤ 17 := by
  cases isExcerpt with
  | all few => simpa [lines] using Nat.le_succ_of_le few
  | ends firstCount _ lastCount => simp [lines, firstCount, lastCount]

/-- No frame is left out. -/
theorem Of.total_eq
    (isExcerpt : Of runs excerpt) :
    excerpt.total = FrameRun.total runs := by
  cases isExcerpt with
  | all => rfl
  | ends => simp [total, total_append, Nat.add_assoc]

end Excerpt

/--
A long listing has its first runs, those that are only counted, and its last
runs.
-/
theorem hidden_between
    {runs : List FrameRun}
    (long : maxShown < runs.length) :
    runs.take (maxShown / 2) ++ hidden runs ++
      runs.drop (runs.length - maxShown / 2) = runs := by
  have joined :
      hidden runs ++ runs.drop (runs.length - maxShown / 2) =
        runs.drop (maxShown / 2) := by
    have rest :
        runs.drop (runs.length - maxShown / 2) =
          (runs.drop (maxShown / 2)).drop (runs.length - maxShown) := by
      rw [List.drop_drop]
      congr 1
      simp only [maxShown] at long ⊢
      omega
    rw [hidden, rest, List.take_append_drop]
  rw [List.append_assoc, joined, List.take_append_drop]

/-- The lines of a listing are those of what it shows. -/
theorem exists_excerpt (runs : List FrameRun) :
    ∃ excerpt, Excerpt.Of runs excerpt ∧ lines runs = excerpt.lines := by
  by_cases few : runs.length ≤ maxShown
  · refine ⟨_, .all few, ?_⟩
    simp [lines, few, Excerpt.lines]
  · have long : maxShown < runs.length := Nat.lt_of_not_le few
    have isExcerpt :
        Excerpt.Of
          (runs.take (maxShown / 2) ++ hidden runs ++
            runs.drop (runs.length - maxShown / 2))
          ⟨runs.take (maxShown / 2), some (total (hidden runs)),
            runs.drop (runs.length - maxShown / 2)⟩ := by
      simp only [maxShown] at long
      refine .ends ?_ ?_ ?_
      · simp only [maxShown, List.length_take]
        omega
      · refine List.ne_nil_of_length_pos ?_
        simp only [hidden, maxShown, List.length_take, List.length_drop]
        omega
      · simp only [maxShown, List.length_drop]
        omega
    rw [hidden_between long] at isExcerpt
    refine ⟨_, isExcerpt, ?_⟩
    rw [lines, if_neg few]
    rfl

/-- Lines below a heading. -/
def listed (lines : List String) : String :=
  String.join (lines.map fun line => "\n    " ++ line)

/-- Number of line breaks in a text. -/
def breaks (text : String) : Nat :=
  text.toList.count '\n'

theorem breaks_append
    (text more : String) :
    breaks (text ++ more) = breaks text + breaks more := by
  rw [breaks, String.toList_append, List.count_append]
  rfl

/-- A number is written on one line. -/
theorem breaks_toString (n : Nat) : breaks (toString n) = 0 := by
  refine List.count_eq_zero.mpr fun member => ?_
  have digits : (toString n).toList = Nat.toDigits 10 n := Nat.toList_repr
  rw [digits] at member
  exact absurd
    (Nat.isDigit_of_mem_toDigits (by decide) (by decide) member) (by decide)

/-- The line of a run breaks where the name does. -/
theorem breaks_line (run : FrameRun) : breaks run.line = breaks run.name := by
  have mark : breaks ": " = 0 := by decide
  have suffix :
      breaks (if 1 < run.count then " (repeated " ++ toString run.count ++
        " times)" else "") =
        0 := by
    split
    · rw [breaks_append, breaks_append, breaks_toString]
      decide
    · decide
  rw [line, breaks_append, breaks_append, breaks_append, breaks_toString, mark,
    suffix]
  omega

theorem breaks_moreLine (count : Nat) : breaks (moreLine count) = 0 := by
  rw [moreLine, breaks_append, breaks_append, breaks_toString]
  decide

/-- Each line starts with a break. -/
theorem breaks_listed (lines : List String) :
    breaks (listed lines) = lines.length + (lines.map breaks).sum := by
  induction lines with
  | nil => rfl
  | cons line lines inductionHypothesis =>
      have indented : breaks "\n    " = 1 := by decide
      rw [listed] at inductionHypothesis ⊢
      rw [List.map_cons, String.join_cons, breaks_append, breaks_append,
        inductionHypothesis, indented, List.map_cons, List.sum_cons,
        List.length_cons]
      omega

/--
A listing breaks once for each of its lines, and where the names it shows do.
-/
theorem Excerpt.breaks_lines (excerpt : Excerpt) :
    breaks (listed excerpt.lines) =
      excerpt.lines.length +
        ((excerpt.first ++ excerpt.last).map fun run =>
          breaks run.name).sum := by
  have omitted : (excerpt.omitted.toList.map fun count =>
      breaks (moreLine count)).sum = 0 := by
    cases excerpt.omitted with
    | none => rfl
    | some count => simp [breaks_moreLine]
  rw [breaks_listed, Excerpt.lines]
  simp [Function.comp_def, breaks_line, omitted]

end FrameRun

namespace Failure

/-- A message lists the call stack below the cause, unless there is none. -/
theorem message_eq (failure : Failure) :
    failure.message =
      "runtime error: " ++ failure.fault.message ++
        (if failure.callStack = [] then ""
          else
            "\n  call stack:" ++
              FrameRun.listed
                (FrameRun.lines (FrameRun.ofStack failure.callStack))) := by
  obtain ⟨fault, callStack⟩ := failure
  cases callStack with
  | nil => rfl
  | cons => rfl

/--
The listing of a call stack accounts for every frame.  The runs that are listed
are the maximal runs of the call stack, and there are no others.  The listing
has at most 17 lines: one for each run or, when there are more than 16, for each
of the first 8 and the last 8, with one between them for the number of frames
that are only counted; together these are the frames of the call stack.  The
message shows the lines below each other, and breaks nowhere else but where a
name that is shown does.
-/
theorem listing_accounts_for_every_frame (failure : Failure) :
    (∀ runs,
      FrameRun.Maximal 0 failure.callStack runs ↔
        runs = FrameRun.ofStack failure.callStack) ∧
    ∃ excerpt : FrameRun.Excerpt,
      excerpt.Of (FrameRun.ofStack failure.callStack) ∧
      excerpt.lines.length ≤ 17 ∧
      excerpt.total = failure.callStack.length ∧
      failure.message =
        "runtime error: " ++ failure.fault.message ++
          (if failure.callStack = [] then ""
            else "\n  call stack:" ++ FrameRun.listed excerpt.lines) ∧
      FrameRun.breaks (FrameRun.listed excerpt.lines) =
        excerpt.lines.length +
          ((excerpt.first ++ excerpt.last).map fun run =>
            FrameRun.breaks run.name).sum := by
  obtain ⟨excerpt, isExcerpt, lines⟩ :=
    FrameRun.exists_excerpt (FrameRun.ofStack failure.callStack)
  refine ⟨fun runs => FrameRun.maximal_iff, excerpt, isExcerpt,
    isExcerpt.length_lines_le, ?_, ?_, excerpt.breaks_lines⟩
  · have maximal := FrameRun.maximal_runsFrom 0 failure.callStack
    rw [isExcerpt.total_eq, FrameRun.total_eq_length]
    exact congrArg List.length maximal.expanded
  · rw [← lines]
    exact failure.message_eq

/-- Of 18 runs, one of them longer, the two in the middle are only counted. -/
example :
    FrameRun.lines
      (FrameRun.ofStack ("a" :: (List.replicate 9 ["a", "b"]).flatten)) =
      ["0: a (repeated 2 times)", "2: b", "3: a", "4: b", "5: a", "6: b",
        "7: a", "8: b",
        "... 2 more frames", "11: a", "12: b", "13: a", "14: b", "15: a",
        "16: b", "17: a",
        "18: b"] := by
  cbv

end Failure

end Formulary
