import EdgeTts.Subtitle.SubtitleBuilder

/-!
# Calls on a `SubtitleBuilder`

The builder as an object: `feed` changes it in place, assignment by assignment, and the
calls of its user come in any order.  `Holds` is the invariant of the object, against the
boundaries that were accepted since it was last cleared.
-/
namespace EdgeTts

open Interaction (Prog Trace Event)
open Interaction.Prog (runs_perform_bind)

/-- The calls on a builder. -/
inductive BuilderCall where
  | feed (boundary : BoundaryChunk)
  | cues
  | toSrt
  | clear

/-- What a call returns. -/
abbrev BuilderCall.Reply : BuilderCall → Type
  | .feed _ => Result Unit
  | .cues => List SubtitleCue
  | .toSrt => Result Bytes
  | .clear => Unit

/-- The tick sum of a boundary that is fed does not overflow. -/
def BuilderCall.Fits : BuilderCall → Prop
  | .feed boundary => Fits64 (boundary.offsetTicks.toInt + boundary.durationTicks.toInt)
  | _ => True

instance : DecidablePred BuilderCall.Fits
  | .feed _ => inferInstanceAs (Decidable (Fits64 _))
  | .cues | .toSrt | .clear => inferInstanceAs (Decidable True)

namespace SubtitleBuilder

/-- `feed`, with the builder that it leaves. -/
def feedInPlace (builder : SubtitleBuilder) (boundary : BoundaryChunk) :
    Prog Addition Addition.Reply (Result Unit × SubtitleBuilder) :=
  if builder.type.any (· ≠ boundary.type) then
    return (.error ⟨.invalidArgument,
      lit "mixed boundary types: all fed boundaries must be the same type", []⟩, builder)
  else
    match SubtitleTime.fromEdgeTicks boundary.offsetTicks with
    | .error e => return (.error e, builder)
    | .ok start => do
        let sum ← endTicks boundary
        match SubtitleTime.fromEdgeTicks sum.val with
        | .error e => return (.error e, builder)
        | .ok stop =>
            let builder :=
              if builder.type.isNone then { builder with type := some boundary.type } else builder
            let builder :=
              { builder with cues := builder.cues ++ [⟨start, stop, boundary.text⟩] }
            return (.ok (), builder)

/-- One call. -/
def call (builder : SubtitleBuilder) :
    (c : BuilderCall) → Prog Addition Addition.Reply (c.Reply × SubtitleBuilder)
  | .feed boundary => builder.feedInPlace boundary
  | .cues => return (builder.cues, builder)
  | .toSrt => return (builder.toSrt, builder)
  | .clear => return ((), builder.clear)

/-- The calls on a builder since its construction, with what they returned, and the builder
after them. -/
inductive Called : Trace BuilderCall BuilderCall.Reply → SubtitleBuilder → Prop
  | new : Called [] {}
  | call {records : Trace BuilderCall BuilderCall.Reply} {builder builder' : SubtitleBuilder}
      {c : BuilderCall} {t : Trace Addition Addition.Reply} {r : c.Reply}
      (before : Called records builder) (run : (builder.call c).Runs t (r, builder')) :
      Called (records ++ [⟨c, r⟩]) builder'

/-- One record, on the boundaries accepted so far. -/
def accept (accepted : List BoundaryChunk) :
    Event BuilderCall BuilderCall.Reply → List BoundaryChunk
  | ⟨.feed boundary, .ok ()⟩ => accepted ++ [boundary]
  | ⟨.clear, _⟩ => []
  | _ => accepted

/-- The boundaries accepted since the last `clear`. -/
def accepted (records : Trace BuilderCall BuilderCall.Reply) : List BoundaryChunk :=
  records.foldl accept []

theorem accepted_concat (records : Trace BuilderCall BuilderCall.Reply)
    (ev : Event BuilderCall BuilderCall.Reply) :
    accepted (records ++ [ev]) = accept (accepted records) ev := by
  rw [accepted, List.foldl_append]
  rfl

/-- The lock is taken by the first boundary. -/
theorem lock_eq (builder : SubtitleBuilder) (type : BoundaryEventType) :
    (if builder.type.isNone then { builder with type := some type } else builder) =
      { builder with type := some (builder.type.getD type) } := by
  obtain ⟨cues, lock⟩ := builder
  cases lock <;> rfl

/-- The object's `feed` and the one that returns the builder are the same. -/
theorem feed_runs_iff {builder : SubtitleBuilder} {boundary : BoundaryChunk}
    {t : Trace Addition Addition.Reply} {r : Result SubtitleBuilder} :
    (builder.feed boundary).Runs t r ↔
      ∃ p, (builder.feedInPlace boundary).Runs t p ∧ p.1.map (fun _ => p.2) = r := by
  rw [feed, feedInPlace]
  by_cases hmixed : builder.type.any (· ≠ boundary.type) = true
  · rw [if_pos hmixed, if_pos hmixed]
    simp [Except.map]
  · rw [if_neg hmixed, if_neg hmixed, lock_eq]
    cases SubtitleTime.fromEdgeTicks boundary.offsetTicks with
    | error e => simp [Except.map]
    | ok start =>
        simp only [runs_perform_bind]
        constructor
        · rintro ⟨sum, t, rfl, h⟩
          cases hstop : SubtitleTime.fromEdgeTicks sum.val with
          | error e =>
              rw [hstop] at h
              obtain ⟨rfl, rfl⟩ := h
              exact ⟨(.error e, builder), ⟨sum, [], rfl, by rw [hstop]; exact ⟨rfl, rfl⟩⟩, rfl⟩
          | ok stop =>
              rw [hstop] at h
              obtain ⟨rfl, rfl⟩ := h
              exact ⟨_, ⟨sum, [], rfl, by rw [hstop]; exact ⟨rfl, rfl⟩⟩, rfl⟩
        · rintro ⟨p, ⟨sum, t, rfl, h⟩, rfl⟩
          refine ⟨sum, t, rfl, ?_⟩
          cases hstop : SubtitleTime.fromEdgeTicks sum.val with
          | error e =>
              rw [hstop] at h
              obtain ⟨rfl, rfl⟩ := h
              exact ⟨rfl, rfl⟩
          | ok stop =>
              rw [hstop] at h
              obtain ⟨rfl, rfl⟩ := h
              exact ⟨rfl, rfl⟩

/-! ## What a feed does -/

/-- The cue of an accepted boundary. -/
structure StoredAs (boundary : BoundaryChunk) (cue : SubtitleCue) : Prop where
  start_nonneg : 0 ≤ boundary.offsetTicks.toInt
  stop_nonneg : 0 ≤ boundary.offsetTicks.toInt + boundary.durationTicks.toInt
  start_eq : (cue.start.millis : Int) = boundary.offsetTicks.toInt / 10 ^ 4
  stop_eq : (cue.stop.millis : Int) =
    (boundary.offsetTicks.toInt + boundary.durationTicks.toInt) / 10 ^ 4
  text_eq : cue.text = boundary.text

/-- The boundary is of another type than the lock, or one of its times is negative. -/
def Refuses (builder : SubtitleBuilder) (boundary : BoundaryChunk) : Prop :=
  (∃ type ∈ builder.type, type ≠ boundary.type) ∨ boundary.offsetTicks.toInt < 0 ∨
    boundary.offsetTicks.toInt + boundary.durationTicks.toInt < 0

theorem mixed_iff {builder : SubtitleBuilder} {boundary : BoundaryChunk} :
    builder.type.any (· ≠ boundary.type) = true ↔
      ∃ type ∈ builder.type, type ≠ boundary.type := by
  rw [Option.any_eq_true]
  simp

theorem fromEdgeTicks_cases (ticks : Int64) :
    (ticks.toInt < 0 ∧ ∃ e, SubtitleTime.fromEdgeTicks ticks = .error e) ∨
    (0 ≤ ticks.toInt ∧ ∃ time, SubtitleTime.fromEdgeTicks ticks = .ok time ∧
      (time.millis : Int) = ticks.toInt / 10 ^ 4) := by
  by_cases hneg : ticks.toInt < 0
  · exact .inl ⟨hneg, _, by rw [SubtitleTime.fromEdgeTicks, if_pos hneg]⟩
  · obtain ⟨time, htime, hmillis⟩ := SubtitleTime.fromEdgeTicks_of_nonneg ticks (by omega)
    exact .inr ⟨by omega, time, htime, by omega⟩

/-- **A feed** refuses the boundary and leaves the builder, or stores its cue under its
type. -/
theorem feedInPlace_runs {builder builder' : SubtitleBuilder} {boundary : BoundaryChunk}
    {t : Trace Addition Addition.Reply} {r : Result Unit}
    (fits : Fits64 (boundary.offsetTicks.toInt + boundary.durationTicks.toInt))
    (run : (builder.feedInPlace boundary).Runs t (r, builder')) :
    (builder.Refuses boundary ∧ (∃ e, r = .error e) ∧ builder' = builder) ∨
    (¬ builder.Refuses boundary ∧ r = .ok () ∧ builder'.type = some boundary.type ∧
      ∃ cue, StoredAs boundary cue ∧ builder'.cues = builder.cues ++ [cue]) := by
  rw [feedInPlace] at run
  by_cases hmixed : builder.type.any (· ≠ boundary.type) = true
  · rw [if_pos hmixed] at run
    obtain ⟨-, heq⟩ := run
    cases heq
    exact .inl ⟨.inl (mixed_iff.mp hmixed), ⟨_, rfl⟩, rfl⟩
  rw [if_neg hmixed] at run
  rcases fromEdgeTicks_cases boundary.offsetTicks with ⟨hneg, e, he⟩ | ⟨hstart, start, hok, hms⟩
  · rw [he] at run
    obtain ⟨-, heq⟩ := run
    cases heq
    exact .inl ⟨.inr (.inl hneg), ⟨_, rfl⟩, rfl⟩
  rw [hok] at run
  simp only [runs_perform_bind] at run
  obtain ⟨sum, t', -, run⟩ := run
  have hsum := sum.property fits
  rcases fromEdgeTicks_cases sum.val with ⟨hneg, e, he⟩ | ⟨hstop, stop, hok', hms'⟩
  · simp only [he] at run
    obtain ⟨-, heq⟩ := run
    cases heq
    exact .inl ⟨.inr (.inr (by omega)), ⟨_, rfl⟩, rfl⟩
  · simp only [hok', lock_eq] at run
    obtain ⟨-, heq⟩ := run
    cases heq
    have hlock : builder.type.getD boundary.type = boundary.type := by
      cases htype : builder.type with
      | none => rfl
      | some type =>
          by_contra hne
          exact hmixed (mixed_iff.mpr ⟨type, htype, hne⟩)
    refine .inr ⟨?_, rfl, congrArg some hlock, ⟨start, stop, boundary.text⟩, ?_, rfl⟩
    · rintro (hother | hneg | hneg)
      · exact hmixed (mixed_iff.mpr hother)
      · omega
      · omega
    · exact ⟨hstart, by omega, hms, by rw [hms', hsum], rfl⟩

/-! ## The invariant -/

/-- The builder holds the cues of the accepted boundaries, under the type that they all
have. -/
structure Holds (accepted : List BoundaryChunk) (builder : SubtitleBuilder) : Prop where
  locked : builder.type.isSome = true ↔ builder.cues ≠ []
  type_eq : ∀ boundary ∈ accepted, builder.type = some boundary.type
  stored : List.Forall₂ StoredAs accepted builder.cues

theorem holds_new : Holds [] {} := ⟨by simp, by simp, .nil⟩

/-- One call. -/
theorem Holds.call {records : Trace BuilderCall BuilderCall.Reply}
    {builder builder' : SubtitleBuilder} {c : BuilderCall} {t : Trace Addition Addition.Reply}
    {r : c.Reply} (holds : Holds (accepted records) builder) (fits : c.Fits)
    (run : (builder.call c).Runs t (r, builder')) :
    Holds (accepted (records ++ [⟨c, r⟩])) builder' := by
  rw [accepted_concat]
  cases c with
  | feed boundary =>
      rcases feedInPlace_runs fits run with ⟨-, ⟨e, rfl⟩, rfl⟩ |
        ⟨hacc, rfl, htype, cue, hcue, hcues⟩
      · exact holds
      · refine ⟨by simp [htype, hcues], ?_, ?_⟩
        · intro bc hbc
          rcases List.mem_append.mp hbc with hbc | hbc
          · rw [htype, ← holds.type_eq bc hbc]
            -- the lock was not taken by this boundary, so it agrees with it
            by_contra hne
            refine hacc (.inl ⟨bc.type, holds.type_eq bc hbc, ?_⟩)
            intro heq
            exact hne (by rw [holds.type_eq bc hbc, heq])
          · rw [htype, List.mem_singleton.mp hbc]
        · rw [hcues]
          exact List.rel_append holds.stored (.cons hcue .nil)
  | cues =>
      obtain ⟨-, heq⟩ := run
      cases heq
      exact holds
  | toSrt =>
      obtain ⟨-, heq⟩ := run
      cases heq
      exact holds
  | clear =>
      obtain ⟨-, heq⟩ := run
      cases heq
      exact holds_new

theorem Called.holds {records : Trace BuilderCall BuilderCall.Reply} {builder : SubtitleBuilder}
    (called : Called records builder) (fits : ∀ ev ∈ records, ev.1.Fits) :
    Holds (accepted records) builder := by
  induction called with
  | new => exact holds_new
  | call before run ih =>
      rw [List.forall_mem_append] at fits
      exact (ih fits.1).call (fits.2 _ List.mem_cons_self) run

/-- **The state of a builder**, after any calls: its cues are those of the boundaries
accepted since the last `clear`, and its type is locked just where there are some.  The next
`feed` fails on another type or a negative time only, and then changes nothing; `cues` and
`to_srt` never do. -/
theorem called_invariant {records : Trace BuilderCall BuilderCall.Reply}
    {builder : SubtitleBuilder} (called : Called records builder)
    (fits : ∀ ev ∈ records, ev.1.Fits) :
    Holds (accepted records) builder ∧
    (∀ boundary, (BuilderCall.feed boundary).Fits → ∀ t r builder',
      (builder.call (.feed boundary)).Runs t (r, builder') →
        ((∃ e, r = .error e) ↔ builder.Refuses boundary) ∧
        ((∃ e, r = .error e) → builder' = builder)) ∧
    ∀ c, c = .cues ∨ c = .toSrt → ∀ t r builder',
      (builder.call c).Runs t (r, builder') → builder' = builder := by
  refine ⟨called.holds fits, ?_, ?_⟩
  · intro boundary hfits t r builder' run
    rcases feedInPlace_runs hfits run with ⟨hrefuses, herror, rfl⟩ | ⟨haccepts, rfl, -⟩
    · exact ⟨iff_of_true herror hrefuses, fun _ => rfl⟩
    · have hok : ¬ ∃ e, (.ok () : Result Unit) = .error e := by
        rintro ⟨e, he⟩
        cases he
      exact ⟨iff_of_false hok haccepts, fun herror => absurd herror hok⟩
  · rintro c (rfl | rfl) t r builder' ⟨-, heq⟩
    · cases heq
      rfl
    · cases heq
      rfl

/-- A word that was accepted, after one was rejected for its negative end: the rejected one
did not lock the type. -/
theorem called_invariant_word :
    Holds [⟨.wordBoundary, lit "a", 10000, 25000⟩]
      ⟨[⟨⟨1, by decide⟩, ⟨3, by decide⟩, lit "a"⟩], some .wordBoundary⟩ := by
  have rejected : Called [⟨.feed ⟨.sentenceBoundary, lit "a", 10000, -20000⟩, .error
      ⟨.invalidArgument, lit "edge ticks must be non-negative for a valid SRT timestamp", []⟩⟩]
      {} :=
    .call (t := [⟨.add 10000 (-20000), ⟨-10000, by decide⟩⟩]) .new ⟨_, [], rfl, rfl, rfl⟩
  have accepted : Called _ ⟨[⟨⟨1, by decide⟩, ⟨3, by decide⟩, lit "a"⟩], some .wordBoundary⟩ :=
    .call (c := .feed ⟨.wordBoundary, lit "a", 10000, 25000⟩) (r := .ok ())
      (t := [⟨.add 10000 25000, ⟨35000, by decide⟩⟩]) rejected ⟨_, [], rfl, rfl, rfl⟩
  exact (called_invariant accepted (by simp only [List.cons_append, List.nil_append]; decide)).1

end SubtitleBuilder
end EdgeTts
