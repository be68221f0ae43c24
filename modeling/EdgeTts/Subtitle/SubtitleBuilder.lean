import EdgeTts.Lib.Interaction
import EdgeTts.Core.Chunk
import EdgeTts.Subtitle.SrtComposer

/-!
# `subtitles/SubtitleBuilder.cpp`

`feed` adds two `int64`, so it is a program over additions.  A boundary whose start is
negative is refused before the addition; `Fed` describes the runs in which nothing is
refused.
-/
namespace EdgeTts

open Interaction (Prog Trace Event)
open Interaction.Prog (perform runs_bind runs_perform_bind)

/-- The addition of two `int64`. -/
inductive Addition where
  | add (a b : Int64)

abbrev Addition.Reply : Addition → Type
  | .add a b => Sum64 a b

/-- `SubtitleBuilder`. -/
structure SubtitleBuilder where
  cues : List SubtitleCue := []
  type : Option BoundaryEventType := none
  deriving DecidableEq, Repr

namespace SubtitleBuilder

/-- `end_ticks`. -/
abbrev endTicks (boundary : BoundaryChunk) : Prog Addition Addition.Reply
    (Sum64 boundary.offsetTicks boundary.durationTicks) :=
  perform (Addition.add boundary.offsetTicks boundary.durationTicks)

/-- `feed`; a builder is left as it is by an error. -/
def feed (builder : SubtitleBuilder) (boundary : BoundaryChunk) :
    Prog Addition Addition.Reply (Result SubtitleBuilder) :=
  if builder.type.any (· ≠ boundary.type) then
    return .error ⟨.invalidArgument,
      lit "mixed boundary types: all fed boundaries must be the same type", []⟩
  else
    match SubtitleTime.fromEdgeTicks boundary.offsetTicks with
    | .error e => return .error e
    | .ok start => do
        let sum ← endTicks boundary
        match SubtitleTime.fromEdgeTicks sum.val with
        | .error e => return .error e
        | .ok stop => return .ok {
            cues := builder.cues ++ [⟨start, stop, boundary.text⟩]
            type := some (builder.type.getD boundary.type) }

/-- Boundaries are fed in order, up to an error. -/
def feedAll (builder : SubtitleBuilder) :
    List BoundaryChunk → Prog Addition Addition.Reply (Result SubtitleBuilder)
  | [] => return .ok builder
  | boundary :: boundaries => do
      match ← builder.feed boundary with
      | .error e => return .error e
      | .ok builder => builder.feedAll boundaries

/-- `to_srt`. -/
def toSrt (builder : SubtitleBuilder) : Result Bytes := SrtComposer.compose builder.cues

/-- `clear`. -/
def clear (_builder : SubtitleBuilder) : SubtitleBuilder := {}

/-! ## Runs -/

/-- An addition whose result is the mathematical sum. -/
def ExactSum (ev : Event Addition Addition.Reply) : Prop :=
  match ev with
  | ⟨.add a b, sum⟩ => sum.val.toInt = a.toInt + b.toInt

/-- A feed refuses the boundary before its addition, or adds a start that is not
negative. -/
theorem feed_runs {builder : SubtitleBuilder} {boundary : BoundaryChunk}
    {t : Trace Addition Addition.Reply} {r : Result SubtitleBuilder}
    (h : (builder.feed boundary).Runs t r) :
    (t = [] ∧ ∃ e, r = .error e) ∨
    ∃ sum, t = [⟨.add boundary.offsetTicks boundary.durationTicks, sum⟩] ∧
      0 ≤ boundary.offsetTicks.toInt := by
  rw [feed] at h
  split at h
  · obtain ⟨rfl, rfl⟩ := h
    exact .inl ⟨rfl, _, rfl⟩
  · rw [SubtitleTime.fromEdgeTicks] at h
    by_cases hneg : boundary.offsetTicks.toInt < 0
    · simp only [if_pos hneg] at h
      obtain ⟨rfl, rfl⟩ := h
      exact .inl ⟨rfl, _, rfl⟩
    · simp only [if_neg hneg, runs_perform_bind] at h
      obtain ⟨sum, t, rfl, h⟩ := h
      refine .inr ⟨sum, ?_, by omega⟩
      split at h
      · obtain ⟨rfl, -⟩ := h
        rfl
      · obtain ⟨rfl, -⟩ := h
        rfl

/-- **Every addition is exact** where no boundary with a start that is not negative ends
beyond the range. -/
theorem feedAll_exact {boundaries : List BoundaryChunk}
    (hend : ∀ bc ∈ boundaries, bc.offsetTicks.toInt + bc.durationTicks.toInt < 2 ^ 63) :
    ∀ {builder : SubtitleBuilder} {t : Trace Addition Addition.Reply} {r : Result SubtitleBuilder},
      (builder.feedAll boundaries).Runs t r → ∀ ev ∈ t, ExactSum ev := by
  induction boundaries with
  | nil =>
      rintro builder t r ⟨rfl, -⟩
      simp
  | cons boundary boundaries ih =>
      intro builder t r h
      obtain ⟨hbc, hrest⟩ := List.forall_mem_cons.mp hend
      obtain ⟨t₁, t₂, r₁, rfl, hfeed, h⟩ := runs_bind.mp h
      have ht₂ : ∀ ev ∈ t₂, ExactSum ev := by
        cases r₁ with
        | error e =>
            obtain ⟨rfl, -⟩ := h
            simp
        | ok builder' => exact ih hrest h
      rcases feed_runs hfeed with ⟨rfl, -⟩ | ⟨sum, rfl, hstart⟩
      · exact ht₂
      · refine List.forall_mem_cons.mpr ⟨sum.property ⟨?_, hbc⟩, ht₂⟩
        have := boundary.durationTicks.le_toInt
        omega

/-- Feeding can always be done. -/
theorem exists_feeding (builder : SubtitleBuilder) (boundaries : List BoundaryChunk) :
    ∃ t r, (builder.feedAll boundaries).Runs t r :=
  ⟨_, _, Prog.runs_exec (fun _ (.add a b) => Sum64.wrapping a b) _ 0⟩

/-- The cue of a boundary. -/
def cueOf (bc : BoundaryChunk) (cue : SubtitleCue) : Prop :=
  cue.start.millis = bc.offsetTicks.toInt.toNat / 10000 ∧
  cue.stop.millis = (bc.offsetTicks.toInt + bc.durationTicks.toInt).toNat / 10000 ∧
  cue.text = bc.text

/-- A boundary that can be fed to a builder of the given type. -/
structure Feedable (type : BoundaryEventType) (bc : BoundaryChunk) : Prop where
  type_eq : bc.type = type
  start_nonneg : 0 ≤ bc.offsetTicks.toInt
  duration_nonneg : 0 ≤ bc.durationTicks.toInt
  end_lt : bc.offsetTicks.toInt + bc.durationTicks.toInt < 2 ^ 63

theorem feed_accepts {type : BoundaryEventType} {builder : SubtitleBuilder}
    {boundary : BoundaryChunk} {t : Trace Addition Addition.Reply} {r : Result SubtitleBuilder}
    (feedable : Feedable type boundary) (htype : ∀ ty ∈ builder.type, ty = type)
    (h : (builder.feed boundary).Runs t r) :
    ∃ builder' cue, r = .ok builder' ∧ builder'.cues = builder.cues ++ [cue] ∧
      cueOf boundary cue ∧ ∀ ty ∈ builder'.type, ty = type := by
  obtain ⟨hty, hstart, hdur, hend⟩ := feedable
  obtain ⟨start, hstart', hmillis⟩ := SubtitleTime.fromEdgeTicks_of_nonneg _ hstart
  have hany : builder.type.any (· ≠ boundary.type) = false := by
    rw [Option.any_eq_false]
    intro ty hmem
    simp [htype ty hmem, hty]
  rw [feed, hany, if_neg Bool.false_ne_true] at h
  simp only [hstart', runs_perform_bind] at h
  obtain ⟨sum, t, rfl, h⟩ := h
  have hsum := sum.property ⟨by omega, hend⟩
  obtain ⟨stop, hstop, hmillis'⟩ :=
    SubtitleTime.fromEdgeTicks_of_nonneg sum.val (by omega)
  simp only [hstop] at h
  obtain ⟨-, rfl⟩ := h
  refine ⟨_, _, rfl, rfl, ⟨hmillis, by rw [hmillis', hsum], rfl⟩, ?_⟩
  rintro ty ⟨⟩
  cases hb : builder.type with
  | none => exact hty
  | some ty' => exact htype ty' hb

/-- **Boundaries of one type with times that are not negative are all accepted.** -/
theorem feedAll_accepts {type : BoundaryEventType} {boundaries : List BoundaryChunk}
    (feedable : ∀ bc ∈ boundaries, Feedable type bc) :
    ∀ {builder : SubtitleBuilder} {t : Trace Addition Addition.Reply} {r : Result SubtitleBuilder},
      (∀ ty ∈ builder.type, ty = type) → (builder.feedAll boundaries).Runs t r →
      ∃ builder' cues, r = .ok builder' ∧ builder'.cues = builder.cues ++ cues ∧
        List.Forall₂ cueOf boundaries cues := by
  induction boundaries with
  | nil =>
      rintro builder t r - ⟨rfl, rfl⟩
      exact ⟨builder, [], rfl, by simp, .nil⟩
  | cons boundary boundaries ih =>
      intro builder t r htype h
      obtain ⟨hbc, hrest⟩ := List.forall_mem_cons.mp feedable
      obtain ⟨t₁, t₂, r₁, rfl, hfeed, h⟩ := runs_bind.mp h
      obtain ⟨builder₁, cue, rfl, hcues, hcue, htype₁⟩ := feed_accepts hbc htype hfeed
      obtain ⟨builder', cues, rfl, hcues', hall⟩ := ih hrest htype₁ h
      exact ⟨builder', cue :: cues, rfl, by rw [hcues', hcues, List.append_assoc]; rfl,
        .cons hcue hall⟩

end SubtitleBuilder
end EdgeTts
