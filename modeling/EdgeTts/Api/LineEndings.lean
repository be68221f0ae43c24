import EdgeTts.Api.SpeechSynthesizer
import EdgeTts.Serialization.MetadataDocuments
import EdgeTts.Subtitle.BuilderCalls

/-!
# Line endings of a subtitle file

`SrtComposer::compose` writes LF only by itself: numbers, timestamps and arrows hold no
other byte that ends a line.  The text of a cue passes through `make_legal_content`, which
leaves every byte but newlines alone, so a CR in it reaches the file.
-/
namespace EdgeTts

open Interaction.Prog (runs_perform runs_perform_bind)

/-- `'\r'`. -/
def cr : UInt8 := 0x0D

theorem mem_dropWhile_lf {c : UInt8} (hc : c ≠ lf) (text : Bytes) :
    c ∈ text.dropWhile (· == lf) ↔ c ∈ text := by
  induction text with
  | nil => rfl
  | cons d text ih =>
      by_cases hd : d = lf
      · rw [List.dropWhile_cons_of_pos (by simpa using hd), ih, List.mem_cons, hd, or_iff_right hc]
      · rw [List.dropWhile_cons_of_neg (by simpa using hd)]

theorem mem_collapse {c : UInt8} (hc : c ≠ lf) (text : Bytes) (prevNl : Bool) :
    c ∈ collapse prevNl text ↔ c ∈ text := by
  induction text generalizing prevNl with
  | nil => rfl
  | cons d text ih =>
      rw [collapse, List.mem_cons]
      by_cases hd : d = lf
      · rw [if_pos hd, hd, or_iff_right hc]
        split
        · exact ih true
        · rw [List.mem_cons, or_iff_right hc, ih]
      · rw [if_neg hd, List.mem_cons, ih]

/-- A content has the bytes of its text, newlines apart. -/
theorem mem_makeLegalContent {c : UInt8} (hc : c ≠ lf) (text : Bytes) :
    c ∈ makeLegalContent text ↔ c ∈ text := by
  rw [makeLegalContent, mem_collapse hc, List.rdropWhile, List.mem_reverse,
    mem_dropWhile_lf hc, List.mem_reverse, mem_dropWhile_lf hc]

theorem cr_not_mem_ofInt (width : Nat) (n : Int) : cr ∉ Decimal.ofInt width n := by
  have hdigits : ∀ width m, cr ∉ Decimal.pad width (Decimal.ofNat m) := by
    intro width m h
    have hdigit := Decimal.isDigit_of_mem_pad (fun _ => Decimal.isDigit_of_mem_ofNat) h
    exact absurd hdigit (by decide)
  rw [Decimal.ofInt]
  split
  · rw [List.mem_cons, not_or]
    exact ⟨by decide, hdigits _ _⟩
  · exact hdigits _ _

theorem cr_not_mem_toSrtTimestamp (t : SubtitleTime) : cr ∉ t.toSrtTimestamp := by
  rw [SubtitleTime.toSrtTimestamp_eq]
  intro h
  rcases SubtitleTime.mem_srtTimestamp h with h | h | h
  · exact absurd h (by decide)
  · exact absurd h (by decide)
  · exact absurd h (by decide)

namespace SrtComposer

open MetadataJsonParser (boundaryItem metadataRoot)

/-- In a block, only the text of the cue can hold a CR. -/
theorem cr_mem_block (idx : Int32) (cue : SubtitleCue) : cr ∈ block idx cue ↔ cr ∈ cue.text := by
  rw [block]
  have harrow : cr ∉ lit " --> " := by decide
  have hends : cr ∉ [lf, lf] := by decide
  simp only [List.mem_append, List.mem_cons, cr_not_mem_ofInt, cr_not_mem_toSrtTimestamp,
    mem_makeLegalContent (show cr ≠ lf by decide), show cr ≠ lf by decide, harrow, hends, false_or,
    or_false]

theorem cr_mem_composeLoop {cues : List SubtitleCue} {idx : Int32} :
    cr ∈ composeLoop idx cues ↔ ∃ cue ∈ cues, keeps cue = true ∧ cr ∈ cue.text := by
  induction cues generalizing idx with
  | nil => simp [composeLoop]
  | cons cue cues ih =>
      rw [List.exists_mem_cons_iff]
      by_cases hkeep : keeps cue = true
      · obtain ⟨hlt, hblank⟩ := keeps_eq_true.mp hkeep
        rw [composeLoop, if_neg (by omega), if_neg (by simp [hblank]), List.mem_append,
          cr_mem_block, ih, and_iff_right hkeep]
      · have hskip : composeLoop idx (cue :: cues) = composeLoop idx cues := by
          rw [composeLoop]
          by_cases hlt : cue.start.millis ≥ cue.stop.millis
          · rw [if_pos hlt]
          · rw [if_neg hlt, if_pos]
            by_contra hblank
            exact hkeep (keeps_eq_true.mpr ⟨by omega, by simpa using hblank⟩)
        rw [hskip, ih, or_iff_right fun h => hkeep h.1]

/-- The text that is written to a subtitle file is the builder's. -/
theorem written_eq_toSrt {mediaPath path path' audioBytes srt : Bytes}
    {submaker : SubtitleBuilder} {t : ApiTrace} {r reply : Result Unit}
    (run : (writeFiles mediaPath (some path) audioBytes submaker).Runs t r)
    (hmem : ⟨.writeTextUtf8 path' srt, reply⟩ ∈ t) : submaker.toSrt = .ok srt := by
  rw [writeFiles, runs_perform_bind] at run
  obtain ⟨written, t', rfl, run'⟩ := run
  rcases List.mem_cons.mp hmem with heq | hmem'
  · cases heq
  cases written with
  | error e =>
      obtain ⟨rfl, -⟩ := run'
      cases hmem'
  | ok u =>
      obtain rfl := runs_perform.mp run'
      cases List.mem_singleton.mp hmem'
      rfl

theorem mem_sorted {cues : List SubtitleCue} {cue : SubtitleCue} :
    cue ∈ (order cues).map cues.get ↔ cue ∈ cues := by
  rw [List.mem_map, List.mem_iff_get]
  constructor
  · rintro ⟨i, -, rfl⟩
    exact ⟨i, rfl⟩
  · rintro ⟨i, rfl⟩
    exact ⟨i, (order_spec cues).1.mem_iff.mpr (List.mem_finRange i), rfl⟩

/-- **The text of the cues decides**: an SRT text has LF line endings only exactly when no
cue that is written holds a CR.  A file that is written for such cues is that text. -/
theorem compose_lf_only_iff (cues : List SubtitleCue) :
    (∃ srt, compose cues = .ok srt ∧
      (cr ∉ srt ↔ ∀ cue ∈ cues, keeps cue = true → cr ∉ cue.text)) ∧
    ∀ type mediaPath path audioBytes t r,
      (writeFiles mediaPath (some path) audioBytes ⟨cues, type⟩).Runs t r →
      ∀ path' srt reply, ⟨.writeTextUtf8 path' srt, reply⟩ ∈ t →
        (cr ∉ srt ↔ ∀ cue ∈ cues, keeps cue = true → cr ∉ cue.text) := by
  have hsrt : cr ∉ composeLoop 1 ((order cues).map cues.get) ↔
      ∀ cue ∈ cues, keeps cue = true → cr ∉ cue.text := by
    rw [cr_mem_composeLoop]
    push Not
    apply forall_congr'
    intro cue
    rw [mem_sorted]
  refine ⟨⟨_, rfl, hsrt⟩, ?_⟩
  intro type mediaPath path audioBytes t r run path' srt reply hmem
  obtain rfl : composeLoop 1 ((order cues).map cues.get) = srt :=
    Except.ok.inj (written_eq_toSrt run hmem)
  exact hsrt

/-- A text with CRLF, sent as JSON metadata, comes through the parser, the builder and the
composer. -/
theorem not_compose_lf_only :
    MetadataJsonParser.parse (fun _ => .value (metadataRoot [boundaryItem (lit "WordBoundary")
      (.numberUnsigned 0) (.numberUnsigned 10000) (lit "a\r\nb")])) [] =
      .ok [⟨.wordBoundary, lit "a\r\nb", 0, 10000⟩] ∧
    SubtitleBuilder.Called [⟨.feed ⟨.wordBoundary, lit "a\r\nb", 0, 10000⟩, .ok ()⟩]
      ⟨[⟨⟨0, by decide⟩, ⟨1, by decide⟩, lit "a\r\nb"⟩], some .wordBoundary⟩ ∧
    ∃ srt, compose [⟨⟨0, by decide⟩, ⟨1, by decide⟩, lit "a\r\nb"⟩] = .ok srt ∧ cr ∈ srt := by
  refine ⟨by decide +kernel, ?_, _, rfl, by decide +kernel⟩
  exact .call (t := [⟨.add 0 10000, ⟨10000, by decide⟩⟩]) .new ⟨_, [], rfl, rfl, rfl⟩

end SrtComposer
end EdgeTts
