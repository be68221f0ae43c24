import EdgeTts.Lib.Decimal
import EdgeTts.Lib.Search
import EdgeTts.Common.Error

/-!
# `subtitles/SubtitleTime.cpp`

A time of a subtitle, in milliseconds.  It cannot be negative, and it fits an
`int64`, so its timestamp fits the buffer that the source writes it to
(`toSrtTimestamp_eq`) and is read back (`readTimestamp_toSrtTimestamp`).
-/
namespace EdgeTts

/-- `SubtitleTime`. -/
structure SubtitleTime where
  millis : Nat
  fits : millis < 2 ^ 63
  deriving DecidableEq, Repr

/-- The text of a timestamp, `%02lld:%02lld:%02lld,%03lld`. -/
def srtTimestamp (millis : Nat) : Bytes :=
  Decimal.pad 2 (Decimal.ofNat (millis / 3600000)) ++ 0x3A ::
    (Decimal.pad 2 (Decimal.ofNat (millis % 3600000 / 60000)) ++ 0x3A ::
      (Decimal.pad 2 (Decimal.ofNat (millis % 60000 / 1000)) ++ 0x2C ::
        Decimal.pad 3 (Decimal.ofNat (millis % 1000))))

namespace SubtitleTime

/-- `from_edge_ticks`, of ticks of 100 ns. -/
def fromEdgeTicks (ticks : Int64) : Result SubtitleTime :=
  if ticks.toInt < 0 then
    .error ⟨.invalidArgument, lit "edge ticks must be non-negative for a valid SRT timestamp", []⟩
  else .ok ⟨ticks.toInt.toNat / 10000, by have := ticks.toInt_lt; omega⟩

def toSrtTimestamp (t : SubtitleTime) : Bytes := snprintf 32 (srtTimestamp t.millis)

theorem fromEdgeTicks_of_nonneg (ticks : Int64) (h : 0 ≤ ticks.toInt) :
    ∃ t, fromEdgeTicks ticks = .ok t ∧ t.millis = ticks.toInt.toNat / 10000 := by
  rw [fromEdgeTicks, if_neg (by omega)]
  exact ⟨_, rfl, rfl⟩

/-- A timestamp is made of digits, colons and a comma. -/
theorem mem_srtTimestamp {millis : Nat} {c : UInt8} (h : c ∈ srtTimestamp millis) :
    Decimal.IsDigit c ∨ c = 0x3A ∨ c = 0x2C := by
  have hdigit : ∀ {width n : Nat}, c ∈ Decimal.pad width (Decimal.ofNat n) → Decimal.IsDigit c :=
    Decimal.isDigit_of_mem_pad fun _ => Decimal.isDigit_of_mem_ofNat
  simp only [srtTimestamp, List.mem_append, List.mem_cons] at h
  rcases h with h | h | h | h | h | h | h
  · exact .inl (hdigit h)
  · exact .inr (.inl h)
  · exact .inl (hdigit h)
  · exact .inr (.inl h)
  · exact .inl (hdigit h)
  · exact .inr (.inr h)
  · exact .inl (hdigit h)

/-- **The buffer is large enough** for every time. -/
theorem toSrtTimestamp_eq (t : SubtitleTime) : t.toSrtTimestamp = srtTimestamp t.millis := by
  refine snprintf_of_fits ?_ fun h => ?_
  · have hfits := t.fits
    have hhours : (Decimal.ofNat (t.millis / 3600000)).length ≤ 13 :=
      (Decimal.length_ofNat_le_iff (by decide)).mpr (by omega)
    have hmins : (Decimal.pad 2 (Decimal.ofNat (t.millis % 3600000 / 60000))).length = 2 :=
      Decimal.length_pad_ofNat (by decide) (by omega)
    have hsecs : (Decimal.pad 2 (Decimal.ofNat (t.millis % 60000 / 1000))).length = 2 :=
      Decimal.length_pad_ofNat (by decide) (by omega)
    have hms : (Decimal.pad 3 (Decimal.ofNat (t.millis % 1000))).length = 3 :=
      Decimal.length_pad_ofNat (by decide) (by omega)
    rw [srtTimestamp]
    simp only [List.length_append, List.length_cons, hmins, hsecs, hms, Decimal.length_pad]
    omega
  · rcases mem_srtTimestamp h with h | h | h
    · exact absurd h (by decide)
    · exact absurd h (by decide)
    · exact absurd h (by decide)

end SubtitleTime

/-! ## Reading a timestamp -/

/-- The number that a text of digits denotes. -/
def readNumber (s : Bytes) : Option Nat :=
  if s ≠ [] ∧ s.all (Decimal.IsDigit ·) then some (Decimal.toNat s) else none

/-- The milliseconds of a timestamp. -/
def readTimestamp (s : Bytes) : Option Nat := do
  let (hours, s) ← Search.splitFirst [0x3A] s
  let (mins, s) ← Search.splitFirst [0x3A] s
  let (secs, ms) ← Search.splitFirst [0x2C] s
  return (← readNumber hours) * 3600000 + (← readNumber mins) * 60000 +
    (← readNumber secs) * 1000 + (← readNumber ms)

theorem readNumber_of_digits {s : Bytes} (hne : s ≠ []) (hdigit : ∀ c ∈ s, Decimal.IsDigit c) :
    readNumber s = some (Decimal.toNat s) :=
  if_pos ⟨hne, List.all_eq_true.mpr fun c hc => decide_eq_true (hdigit c hc)⟩

theorem readNumber_pad (width n : Nat) :
    readNumber (Decimal.pad width (Decimal.ofNat n)) = some n := by
  rw [readNumber_of_digits (Decimal.pad_ne_nil (Decimal.ofNat_ne_nil n))
    fun _ => Decimal.isDigit_of_mem_pad fun _ => Decimal.isDigit_of_mem_ofNat,
    Decimal.toNat_pad, Decimal.toNat_ofNat]

/-- A numeral ends where a byte that is no digit stands. -/
theorem splitFirst_numeral {c : UInt8} (hc : ¬ Decimal.IsDigit c) (width n : Nat) (s : Bytes) :
    Search.splitFirst [c] (Decimal.pad width (Decimal.ofNat n) ++ c :: s) =
      some (Decimal.pad width (Decimal.ofNat n), s) := by
  have hfresh : Search.Fresh [c] (Decimal.pad width (Decimal.ofNat n)) :=
    Search.fresh_of_not_mem fun h =>
      hc (Decimal.isDigit_of_mem_pad (fun _ => Decimal.isDigit_of_mem_ofNat) h)
  simpa using Search.splitFirst_append s hfresh

/-- **A timestamp is read back**, however many digits its hours have. -/
theorem readTimestamp_srtTimestamp (millis : Nat) :
    readTimestamp (srtTimestamp millis) = some millis := by
  simp only [readTimestamp, srtTimestamp, splitFirst_numeral (c := 0x3A) (by decide),
    splitFirst_numeral (c := 0x2C) (by decide), readNumber_pad, Option.bind_eq_bind,
    Option.bind_some, Option.pure_def, Option.some.injEq]
  omega

end EdgeTts
