import Formulary.Proofs.Load.Following
import Formulary.Proofs.Source.Lines

namespace Formulary

open Stateful

/-!
# Loading in parts and at once

A source that is loaded after another one leaves the machine that the text of
both leaves when it is loaded at once.  The text is parsed part by part, it
declares what its parts declare, and its statements are carried out one part
after the other, on machines that differ in what is printed and nothing else.
-/

namespace Load

theorem statements_append
    (signatures : Signatures)
    (first second : List Statement) :
    statements signatures (first ++ second) =
      (do
        statements signatures first
        statements signatures second) := by
  induction first with
  | nil => rfl
  | cons source rest inductionHypothesis =>
      have steps (others : List Statement) :
          statements signatures (source :: others) =
            (statement signatures source >>= fun _ =>
              statements signatures others) :=
        rfl
      rw [List.cons_append, steps, steps, inductionHypothesis, bind_assoc]

open Machine

/--
Statements followed by others that stand elsewhere.  The first ones leave what
they leave against fewer declarations, and the others do what they do on their
own, on a machine that has printed nothing.
-/
theorem statements_append_iff
    {signatures known whole : Signatures}
    {config : Config}
    {scopes between : Scopes}
    {log : List Value}
    {program : List Statement}
    (carriedOut :
      statements signatures program (building config scopes []) =
        .ok () (building config between log))
    (grows : signatures.Extends whole)
    (same : ∀ name, known.get? name = whole.get? name)
    {move back : Position → Position}
    (cancels : back ∘ move = id)
    {others : List Statement}
    {next : Machine} :
    statements whole (program ++ others.map (Statement.relocate move))
      (building config scopes []) =
        .ok () next ↔
      ∃ later more,
        statements known others (building config between []) =
          .ok () (building config later more) ∧
        next = building config later (log ++ more) := by
  have front :
      statements whole program (building config scopes []) =
        .ok () (building config between log) := by
    have unmoved : Follows config _ _ := follows_statements grows id program
    have identity : Statement.relocate id = id := funext Statement.relocate_id
    rw [identity, List.map_id] at unmoved
    exact unmoved.carry carriedOut []
  have moved (later : Scopes) (more : List Value) :=
    statements_relocate_iff same cancels others config between later [] log more
  rw [statements_append, bind_of_ok front]
  constructor
  · intro succeeds
    obtain ⟨later, more, rfl⟩ := building_of_statements succeeds
    exact ⟨later, more, (moved later more).mpr succeeds, rfl⟩
  · rintro ⟨later, more, succeeds, rfl⟩
    exact (moved later more).mp succeeds

end Load

namespace Machine

open Load

/-- Replacing nothing is extending nothing. -/
theorem load_replace_ofConfig
    (file source : String)
    (config : Config) :
    load .replace file source (ofConfig config) =
      load .extend file source (building config Scopes.empty []) := by
  simp only [load, commit, ofConfig, building, List.nil_append]
  rfl

/-- What loading a source adds to a machine. -/
theorem load_extend_iff
    {file source : String}
    {config : Config}
    {scopes : Scopes}
    {printed : List Value}
    {next : Machine} :
    load .extend file source (building config scopes printed) = .ok () next ↔
      ∃ program later log,
        parse file source = .ok program ∧
        Compile.Accepted program ∧
        statements ((Compile.declarations program).atop
          (.ofEntries scopes.globals.entries))
            program (building config scopes []) =
          .ok () (building config later log) ∧
        next = building config later (printed ++ log) := by
  simp only [load_eq_ok_iff, Compile.declareAll_eq_ok_iff]
  constructor
  · rintro ⟨program, _, built, parsed, ⟨accepted, rfl⟩, carriedOut, rfl⟩
    obtain ⟨later, log, rfl⟩ := building_of_statements carriedOut
    exact ⟨program, later, log, parsed, accepted, carriedOut, rfl⟩
  · rintro ⟨program, later, log, parsed, accepted, carriedOut, rfl⟩
    exact ⟨program, _, _, parsed, ⟨accepted, rfl⟩, carriedOut, rfl⟩

/-- The entries of a loaded source have the signatures that it declares. -/
theorem get?_ofEntries_of_load
    {file source : String}
    {config : Config}
    {machine : Machine}
    (loads : load .replace file source (ofConfig config) = .ok () machine)
    {program : List Statement}
    (parsed : parse file source = .ok program)
    (name : String) :
    (Signatures.ofEntries machine.scopes.globals.entries).get? name =
      (Compile.declarations program).get? name := by
  have wellFormed := (wellFormed_ofConfig config).load loads
  obtain ⟨_, signatures, parsedToo, loadedFrom⟩ := loadedFrom_of_load loads
  cases parsed.symm.trans parsedToo
  have described :=
    loadedFrom.effects.describe loadedFrom.declared (.ofEntries List.nodup_nil)
  obtain ⟨-, rfl⟩ := Compile.declareAll_eq_ok_iff.mp loadedFrom.declared
  have entries := Signatures.Describe.ofEntries wellFormed.distinct name
  rw [entries, ← described name, Signatures.get?_atop]
  exact Option.or_none

/-- The signatures that a source declares, the last one of each name. -/
def declared? (source : String) : Option Signatures := do
  let program ← (parse "" source).toOption
  (Compile.declareAll Signatures.empty program).toOption

/--
Two sources agree about the signatures of the names that both of them declare.
-/
def Concur (first second : String) : Prop :=
  ∀ signatures others,
    declared? first = some signatures → declared? second = some others →
      ∀ name signature other,
        signatures.get? name = some signature → others.get? name = some other →
          signature = other

theorem declared?_of_parse
    {file source : String}
    {program : List Statement}
    (parsed : parse file source = .ok program)
    (accepted : Compile.Accepted program) :
    declared? source = some (Compile.declarations program) := by
  have parsedToo : parse "" source = .ok program :=
    parse_eq_ok_iff.mpr (parse_eq_ok_iff.mp parsed)
  have declares :
      Compile.declareAll Signatures.empty program =
        .ok (Compile.declarations program) :=
    Compile.declareAll_eq_ok_iff.mpr ⟨accepted, (Signatures.atop_empty _).symm⟩
  simp [declared?, parsedToo, declares, Except.toOption]

/-- Declarations that agree with earlier ones only add to them. -/
theorem Concur.extends
    {first second : String}
    (concur : Concur first second)
    {file other : String}
    {program others : List Statement}
    (parsed : parse file first = .ok program)
    (accepted : Compile.Accepted program)
    (othersParsed : parse other second = .ok others)
    (othersAccepted : Compile.Accepted others) :
    (Compile.declarations program).Extends
      ((Compile.declarations others).atop (Compile.declarations program)) := by
  intro name signature declares
  rw [Signatures.get?_atop]
  cases again : (Compile.declarations others).get? name with
  | none => exact declares
  | some changed =>
      have agrees :=
        concur _ _ (declared?_of_parse parsed accepted)
          (declared?_of_parse othersParsed othersAccepted) name signature
          changed declares again
      rw [agrees]
      rfl

/--
Loading in parts agrees with loading at once.  When a source is loaded on a
fresh machine and another one agrees with it about the signatures of the names
that both declare, then adding the second one succeeds exactly when the text of
both, one below the other, is loaded on a fresh machine with the same settings,
and the two machines are the same: names in their order, entries with their
programs and values printed.
-/
theorem extending_is_loading_at_once
    {file first : String}
    {config : Config}
    {machine : Machine}
    (loads : load .replace file first (ofConfig config) = .ok () machine)
    {second : String}
    (concur : Concur first second)
    (other joined : String)
    (next : Machine) :
    load .extend other second machine = .ok () next ↔
      load .replace joined (first ++ "\n" ++ second) (ofConfig config) =
        .ok () next := by
  have declares := @get?_ofEntries_of_load file first config machine loads
  have nothing : Signatures.ofEntries Scopes.empty.globals.entries =
      Signatures.empty := rfl
  have cancels := Position.raise_comp_lower (lineCount first)
  rw [load_replace_ofConfig] at loads ⊢
  obtain ⟨program, between, log, parsed, accepted, carriedOut, rfl⟩ :=
    load_extend_iff.mp loads
  have below := @parse_below file other joined first program parsed second
  simp only [load_extend_iff, below, nothing,
    Signatures.atop_empty] at carriedOut ⊢
  -- What the parts declare together, and what the
  -- second declares over the entries of the first.
  have together (others : List Statement) :
      Compile.declarations
          (program ++ others.map
            (Statement.relocate (Position.lower (lineCount first)))) =
        (Compile.declarations others).atop (Compile.declarations program) := by
    rw [Compile.declarations_append, Compile.declarations_relocate]
  have same (others : List Statement) (name : String) :
      ((Compile.declarations others).atop
        (.ofEntries between.globals.entries)).get? name =
        ((Compile.declarations others).atop (Compile.declarations program)).get?
          name := by
    rw [Signatures.get?_atop, Signatures.get?_atop]
    exact congrArg _ (declares parsed name)
  constructor
  · rintro ⟨others, later, more, othersParsed, othersAccepted, othersCarriedOut,
        rfl⟩
    have grows := concur.extends parsed accepted othersParsed othersAccepted
    have whole :=
      (statements_append_iff carriedOut grows (same others) cancels).mpr
      ⟨later, more, othersCarriedOut, rfl⟩
    refine ⟨_, later, log ++ more, ⟨others, othersParsed, rfl⟩, ?_, ?_, rfl⟩
    · exact Compile.accepted_append.mpr
        ⟨accepted, (Compile.accepted_relocate _).mpr othersAccepted⟩
    · rw [together]
      exact whole
  · rintro ⟨_, later, all, ⟨others, othersParsed, rfl⟩, allAccepted,
        allCarriedOut, rfl⟩
    have othersAccepted :=
      (Compile.accepted_relocate _).mp
        (Compile.accepted_append.mp allAccepted).2
    have grows := concur.extends parsed accepted othersParsed othersAccepted
    rw [together] at allCarriedOut
    obtain ⟨later, more, othersCarriedOut, isNext⟩ :=
      (statements_append_iff carriedOut grows (same others) cancels).mp
        allCarriedOut
    exact ⟨others, later, more, othersParsed, othersAccepted, othersCarriedOut,
      isNext⟩

/-- A function that has been called already is replaced by another one. -/
theorem extending_is_loading_at_once_function :
    ∃ machine next : Machine,
      load .replace "" "f(x) = x; print f(4);" (ofConfig {}) = .ok () machine ∧
      load .extend "" "y = f(3); f(x) = 2 * x; print y;" machine = .ok () next ∧
      load .replace ""
        ("f(x) = x; print f(4);" ++ "\n" ++ "y = f(3); f(x) = 2 * x; print y;")
          (ofConfig {}) =
        .ok () next ∧
      next.names = ["f", "y"] ∧
      next.printed = [.int 4, .int 6] := by
  have loads :
      load .replace "" "f(x) = x; print f(4);" (ofConfig {}) =
        .ok () (building {} ⟨⟨[⟨"f", .function ["x"] [.variable "x"]⟩]⟩, []⟩
          [.int 4]) := by
    decide +kernel
  have adds :
      load .extend "" "y = f(3); f(x) = 2 * x; print y;"
          (building {}
            ⟨⟨[⟨"f", .function ["x"] [.variable "x"]⟩]⟩, []⟩ [.int 4]) =
        .ok () (building {} ⟨⟨[
          ⟨"f", .function ["x"]
            [.literal (.int 2), .variable "x", .op (.binary .mul)]⟩,
          ⟨"y", .scalar [.literal (.int 3), .call "f" 1]⟩]⟩, []⟩
            [.int 4, .int 6]) := by
    decide +kernel
  have concur :
      Concur "f(x) = x; print f(4);" "y = f(3); f(x) = 2 * x; print y;" := by
    have declares :
        declared? "f(x) = x; print f(4);" = some ⟨[("f", .function 1)]⟩ := by
      decide +kernel
    have declaresToo :
        declared? "y = f(3); f(x) = 2 * x; print y;" =
          some ⟨[("f", .function 1), ("y", .scalar)]⟩ := by
      decide +kernel
    intro signatures others isFirst isSecond name signature other known again
    cases declares.symm.trans isFirst
    cases declaresToo.symm.trans isSecond
    by_cases isF : "f" = name
    · subst isF
      exact Option.some.inj (known.symm.trans again)
    · simp [Signatures.get?, isF] at known
  exact ⟨_, _, loads, adds,
    (extending_is_loading_at_once loads concur "" "" _).mp adds, rfl, rfl⟩

end Machine

end Formulary
