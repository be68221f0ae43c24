import EdgeTts.Lib.Parts
import EdgeTts.Communication.SessionAssembly
import EdgeTts.Subtitle.SubtitleBuilder

/-!
# The subtitles of a session

The boundaries that a session returns are fed to a `SubtitleBuilder`.
`subtitles_in_order` says that the cues of one chunk are written before those of the
next and end before they start; `subtitles_exact_iff` says for which sessions no
addition overflows on the way.

Both rest on one bound: the raised boundaries of a conversation end before the
compensation of the next.
-/
namespace EdgeTts

open Parts (origins)
open SubtitleBuilder (ExactSum Feedable cueOf feedAll_accepts feedAll_exact)
open SrtComposer (printed)

/-! ## Boundaries -/

theorem subtitleEnd_nonneg (chunks : List TtsChunk) : 0 ≤ subtitleEnd chunks :=
  (Parts.le_foldl_max _ 0).1

theorem rawEnd_le_subtitleEnd {chunks : List TtsChunk} {bc : BoundaryChunk}
    (h : bc ∈ boundaries chunks) : bc.rawEnd ≤ subtitleEnd chunks :=
  (Parts.le_foldl_max _ 0).2 _ (List.mem_map_of_mem h)

theorem boundaries_flatten (outs : List (List TtsChunk)) :
    boundaries outs.flatten = (outs.map boundaries).flatten := by
  induction outs with
  | nil => rfl
  | cons out outs ih =>
      rw [List.flatten_cons, boundaries_append, ih, List.map_cons, List.flatten_cons]

/-- Only the offset of a boundary is changed. -/
theorem Shifted.fields {compensation : Int} {bc bc' : BoundaryChunk}
    (h : Shifted compensation (.boundary bc) (.boundary bc')) :
    bc'.offsetTicks.toInt = bc.offsetTicks.toInt + compensation ∧
      bc'.type = bc.type ∧ bc'.text = bc.text ∧ bc'.durationTicks = bc.durationTicks := by
  cases h with
  | boundary raised => exact ⟨raised, rfl, rfl, rfl⟩

/-- The boundaries of shifted chunks are the shifted boundaries. -/
theorem forall₂_boundaries {compensation : Int} {chunks new : List TtsChunk}
    (h : List.Forall₂ (Shifted compensation) chunks new) :
    List.Forall₂ (fun bc bc' => Shifted compensation (.boundary bc) (.boundary bc'))
      (boundaries chunks) (boundaries new) := by
  induction h with
  | nil => exact .nil
  | cons hd _ ih =>
      cases hd with
      | audio chunk => exact ih
      | boundary raised => exact .cons (.boundary raised) ih

/-! ## Cues -/

/-- The cue of a boundary whose offset is raised. -/
structure RaisedCue (compensation : Int) (bc : BoundaryChunk) (cue : SubtitleCue) : Prop where
  start : cue.start.millis = (bc.offsetTicks.toInt + compensation).toNat / 10000
  stop : cue.stop.millis = (bc.rawEnd + compensation).toNat / 10000
  text : cue.text = bc.text

theorem RaisedCue.of_shifted {compensation : Int} {bc bc' : BoundaryChunk} {cue : SubtitleCue}
    (h : Shifted compensation (.boundary bc) (.boundary bc')) (hcue : cueOf bc' cue) :
    RaisedCue compensation bc cue := by
  obtain ⟨hstart, hstop, htext⟩ := hcue
  obtain ⟨raised, -, htext', hdur⟩ := h.fields
  refine ⟨by rw [hstart, raised], ?_, htext.trans htext'⟩
  rw [hstop, raised, hdur, BoundaryChunk.rawEnd, add_right_comm]

theorem RaisedCue.forall₂ {compensation : Int} {bcs bcs' : List BoundaryChunk}
    {cues : List SubtitleCue}
    (h : List.Forall₂ (fun bc bc' => Shifted compensation (.boundary bc) (.boundary bc')) bcs bcs')
    (hcues : List.Forall₂ cueOf bcs' cues) : List.Forall₂ (RaisedCue compensation) bcs cues := by
  induction h generalizing cues with
  | nil =>
      cases hcues
      exact .nil
  | cons hd _ ih =>
      cases hcues with
      | cons hcue hcues => exact .cons (.of_shifted hd hcue) (ih hcues)

namespace SynthesisSession
variable {session : SynthesisSession}

/-! ## Compensation -/

theorem WholeTurn.finished {messages : List WebSocketMessage} (turn : session.WholeTurn messages)
    (audio : (session.contents messages).any isAudio = true) : session.Finished messages := by
  obtain ⟨init, last, rfl, hlast, -⟩ := turn
  exact ⟨⟨last, by simp, accepted_eq hlast⟩, audio⟩

/-- The compensation of the next conversation. -/
theorem compensation_next (base : Int) {convs : List (List WebSocketMessage)} {k : Nat}
    {messages : List WebSocketMessage} (hk : convs[k]? = some messages) :
    session.compensation base convs (k + 1) =
      session.compensation base convs k + subtitleEnd (session.contents messages) := by
  simp [compensation, List.take_add_one, hk, add_assoc]

variable (session) in
theorem compensation_mono (base : Int) (convs : List (List WebSocketMessage)) {k l : Nat}
    (hkl : k ≤ l) : session.compensation base convs k ≤ session.compensation base convs l := by
  refine monotone_nat_of_le_succ (fun k => ?_) hkl
  cases hk : convs[k]? with
  | some messages =>
      rw [compensation_next base hk]
      exact le_add_of_nonneg_right (subtitleEnd_nonneg _)
  | none => simp [compensation, List.take_add_one, hk]

variable (session) in
theorem le_compensation (base : Int) (convs : List (List WebSocketMessage)) (k : Nat) :
    base ≤ session.compensation base convs k := by
  simpa using session.compensation_mono base convs (Nat.zero_le k)

/-- **The raised boundaries of a conversation end before the next one starts.** -/
theorem rawEnd_le_compensation (base : Int) {convs : List (List WebSocketMessage)} {k l : Nat}
    {messages : List WebSocketMessage} (hk : convs[k]? = some messages) (hkl : k < l)
    {bc : BoundaryChunk} (hbc : bc ∈ boundaries (session.contents messages)) :
    bc.rawEnd + session.compensation base convs k ≤ session.compensation base convs l := by
  have hnext : session.compensation base convs (k + 1) ≤ session.compensation base convs l :=
    session.compensation_mono base convs hkl
  have hend := rawEnd_le_subtitleEnd hbc
  rw [compensation_next base hk] at hnext
  omega

/-! ## What is fed -/

/-- A boundary that is assembled is the raised boundary of a conversation. -/
theorem Assembles.exists_of_mem {base : Int} {convs : List (List WebSocketMessage)}
    {outs : List (List TtsChunk)} (h : session.Assembles base convs outs) {bc' : BoundaryChunk}
    (hmem : bc' ∈ boundaries outs.flatten) :
    ∃ k messages bc, convs[k]? = some messages ∧ bc ∈ boundaries (session.contents messages) ∧
      Shifted (session.compensation base convs k) (.boundary bc) (.boundary bc') := by
  rw [boundaries_flatten] at hmem
  obtain ⟨bcs, hbcs, hmem⟩ := List.mem_flatten.mp hmem
  obtain ⟨new, hnew, rfl⟩ := List.mem_map.mp hbcs
  obtain ⟨k, hk⟩ := List.mem_iff_getElem?.mp hnew
  have hlt : k < convs.length := h.1 ▸ (List.getElem?_eq_some_iff.mp hk).1
  have hconv := List.getElem?_eq_getElem hlt
  obtain ⟨bc, hbc, hshift⟩ :=
    Parts.exists_of_mem_right (forall₂_boundaries (h.2 k _ _ hconv hk)) hmem
  exact ⟨k, _, bc, hconv, hbc, hshift⟩

/-- The end of an assembled boundary is in range, as the offset after its chunk is. -/
theorem Assembles.end_lt {base : Int} {convs : List (List WebSocketMessage)}
    {outs : List (List TtsChunk)} (h : session.Assembles base convs outs)
    (inRange : session.NoOverflow base convs)
    (finished : ∀ messages ∈ convs, session.Finished messages) {bc' : BoundaryChunk}
    (hmem : bc' ∈ boundaries outs.flatten) :
    bc'.offsetTicks.toInt + bc'.durationTicks.toInt < 2 ^ 63 := by
  obtain ⟨k, messages, bc, hk, hbc, hshift⟩ := h.exists_of_mem hmem
  have hfits := (inRange k messages hk).2 (finished messages (List.mem_of_getElem? hk))
  have hend := rawEnd_le_subtitleEnd hbc
  obtain ⟨raised, -, -, hdur⟩ := hshift.fields
  rw [Fits64] at hfits
  rw [BoundaryChunk.rawEnd] at hend
  rw [raised, hdur]
  omega

/-- What a session that has returned has received and assembled. -/
theorem assembled {fuel : Nat} {ttsConfig : TtsConfig} {texts : List Bytes}
    {provider : EdgeTokenProvider} {t : SessionTrace} {out : List TtsChunk}
    (run : (session.synthesize fuel ttsConfig texts provider).Runs t (some (.ok out)))
    (exact : Exact t) :
    (conversations t).length = texts.length ∧ session.NoOverflow 0 (conversations t) ∧
    (∀ messages ∈ conversations t, session.Finished messages) ∧
    ∃ outs, out = outs.flatten ∧ session.Assembles 0 (conversations t) outs := by
  have hrun := synthesize_runs run
  obtain ⟨hlen, hturns, outs, hout, houts⟩ := hrun.assembles exact
  exact ⟨hlen, hrun.exact_iff.mp exact,
    fun messages hmem => (hturns messages hmem).1.finished (hturns messages hmem).2,
    outs, hout, houts⟩

/-- **Exactly these sessions overflow nowhere**, neither where they are assembled nor where
their boundaries are fed to a builder. -/
theorem subtitles_exact_iff {fuel : Nat} {ttsConfig : TtsConfig} {texts : List Bytes}
    {provider : EdgeTokenProvider} {t : SessionTrace} {r : Option (Outcome (List TtsChunk))}
    (run : (session.synthesize fuel ttsConfig texts provider).Runs t r) :
    (Exact t ∧ ∀ out, r = some (.ok out) → ∀ t' r',
      (({} : SubtitleBuilder).feedAll (boundaries out)).Runs t' r' → ∀ ev ∈ t', ExactSum ev) ↔
    session.NoOverflow 0 (conversations t) := by
  have hiff : Exact t ↔ session.NoOverflow 0 (conversations t) := (synthesize_runs run).exact_iff
  rw [← hiff, and_iff_left_iff_imp]
  rintro exact out rfl t' r' feeding
  obtain ⟨-, hrange, hfinished, outs, rfl, houts⟩ := assembled run exact
  exact feedAll_exact (fun bc hbc => houts.end_lt hrange hfinished hbc) feeding

theorem subtitles_exact_sample : ∃ t out,
    (sampleSession.synthesize 3 .defaults [lit "Hi", lit "Ho"] sampleProvider).Runs t
      (some (.ok out)) ∧ Exact t ∧
    ∀ t' r', (({} : SubtitleBuilder).feedAll (boundaries out)).Runs t' r' →
      ∀ ev ∈ t', ExactSum ev := by
  obtain ⟨t, out, run, hconvs⟩ := sample_run parse_word [lit "Hi", lit "Ho"]
  obtain ⟨exact, hfeed⟩ := (subtitles_exact_iff run).mpr (hconvs ▸ sample_noOverflow)
  exact ⟨t, out, run, exact, hfeed out rfl⟩

/-- A word that ends at tick `2 ^ 63` is accepted, and the session returns a value after an
addition that overflows. -/
theorem not_subtitles_exact : ∃ t out,
    (sampleSession.synthesize 3 .defaults [lit "Hi"] sampleProvider).Runs t (some (.ok out)) ∧
    conversations t = [[audioMessage, textMessage "audio.metadata" hugeJson, turnEndMessage]] ∧
    ¬ Exact t := by
  obtain ⟨t, out, run, hconvs⟩ := sample_run parse_huge [lit "Hi"]
  refine ⟨t, out, run, hconvs, fun exact => ?_⟩
  have hrange := (synthesize_runs run).exact_iff.mp exact
  rw [hconvs] at hrange
  obtain ⟨hend, -⟩ := (hrange 0 _ rfl).1 ⟨.wordBoundary, lit "Hi", 9223372036854775807, 1⟩
    (by rw [(complete_of_parse parse_huge).2]; exact .head _)
  exact absurd hend (by decide)

/-! ## The order of the cues -/

/-- Boundaries of one type, with times that are not negative. -/
def Plain (type : BoundaryEventType) (chunks : List TtsChunk) : Prop :=
  ∀ bc ∈ boundaries chunks,
    bc.type = type ∧ 0 ≤ bc.offsetTicks.toInt ∧ 0 ≤ bc.durationTicks.toInt

variable (session) in
/-- `parts` holds, for each conversation, the cues of its boundaries. -/
def Cued (convs : List (List WebSocketMessage)) (parts : List (List SubtitleCue)) : Prop :=
  parts.length = convs.length ∧
  ∀ k messages part, convs[k]? = some messages → parts[k]? = some part →
    List.Forall₂ (RaisedCue (session.compensation 0 convs k))
      (boundaries (session.contents messages)) part

/-- The cues of what is assembled. -/
theorem Assembles.cued {convs : List (List WebSocketMessage)} {outs : List (List TtsChunk)}
    (h : session.Assembles 0 convs outs) {cues : List SubtitleCue}
    (hcues : List.Forall₂ cueOf (boundaries outs.flatten) cues) :
    ∃ parts, cues = parts.flatten ∧ session.Cued convs parts := by
  rw [boundaries_flatten] at hcues
  obtain ⟨parts, rfl, hparts⟩ := Parts.forall₂_flatten hcues
  rw [List.forall₂_map_left_iff, List.forall₂_iff_get] at hparts
  obtain ⟨hlen, hparts⟩ := hparts
  refine ⟨parts, rfl, hlen ▸ h.1, ?_⟩
  intro k messages part hk hpart
  obtain ⟨hlt, rfl⟩ := List.getElem?_eq_some_iff.mp hpart
  have hlt' : k < outs.length := hlen ▸ hlt
  exact RaisedCue.forall₂ (forall₂_boundaries (h.2 k _ _ hk (List.getElem?_eq_getElem hlt')))
    (hparts k hlt' hlt)

/-- A cue of one conversation ends before those of a later one start. -/
theorem Cued.stop_le_start {convs : List (List WebSocketMessage)}
    {parts : List (List SubtitleCue)} (h : session.Cued convs parts) {type : BoundaryEventType}
    (plain : ∀ messages ∈ convs, Plain type (session.contents messages)) {k l : Nat} (hkl : k < l)
    {part part' : List SubtitleCue} (hk : parts[k]? = some part) (hl : parts[l]? = some part')
    {cue cue' : SubtitleCue} (hcue : cue ∈ part) (hcue' : cue' ∈ part') :
    cue.stop.millis ≤ cue'.start.millis := by
  -- each part belongs to a conversation
  have hconv : ∀ {m part}, parts[m]? = some part → ∃ messages, convs[m]? = some messages :=
    fun hm => ⟨_, List.getElem?_eq_getElem (h.1 ▸ (List.getElem?_eq_some_iff.mp hm).1)⟩
  obtain ⟨messages, hk'⟩ := hconv hk
  obtain ⟨messages', hl'⟩ := hconv hl
  obtain ⟨bc, hbc, raised⟩ := Parts.exists_of_mem_right (h.2 k _ _ hk' hk) hcue
  obtain ⟨bc', hbc', raised'⟩ := Parts.exists_of_mem_right (h.2 l _ _ hl' hl) hcue'
  obtain ⟨-, hstart, -⟩ := plain messages' (List.mem_of_getElem? hl') bc' hbc'
  have hle := rawEnd_le_compensation 0 hk' hkl hbc
  rw [raised.stop, raised'.start]
  exact Nat.div_le_div_right (Int.toNat_le_toNat (by omega))

/-- **The subtitles of different chunks do not overlap.**  When a session has returned `out`
without an overflow, and its boundaries were of one type and not negative, they can be
fed to a builder, and the cues of one chunk stand before those of a later one in the
file and end before they start. -/
theorem subtitles_in_order {fuel : Nat} {ttsConfig : TtsConfig} {texts : List Bytes}
    {provider : EdgeTokenProvider} {t : SessionTrace} {out : List TtsChunk}
    (run : (session.synthesize fuel ttsConfig texts provider).Runs t (some (.ok out)))
    (exact : Exact t) {type : BoundaryEventType}
    (plain : ∀ messages ∈ conversations t, Plain type (session.contents messages))
    {t' : Interaction.Trace Addition Addition.Reply} {r : Result SubtitleBuilder}
    (feeding : (({} : SubtitleBuilder).feedAll (boundaries out)).Runs t' r) :
    ∃ builder parts srt, r = .ok builder ∧ builder.toSrt = .ok srt ∧
      builder.cues = parts.flatten ∧ parts.length = texts.length ∧
      session.Cued (conversations t) parts ∧
      (builder.cues.length < 2 ^ 31 →
        decode srt = some ((((printed builder.cues).map builder.cues.get).zipIdx 1).map fun p =>
          ⟨p.2, p.1.start.millis, p.1.stop.millis, makeLegalContent p.1.text⟩)) ∧
      ∀ (i j : Nat) (p q : Fin builder.cues.length) (k l : Nat),
        (printed builder.cues)[i]? = some p → (printed builder.cues)[j]? = some q →
        (origins parts)[p.val]? = some k → (origins parts)[q.val]? = some l → k < l →
        i < j ∧ (builder.cues.get p).stop.millis ≤ (builder.cues.get q).start.millis := by
  obtain ⟨hlen, hrange, hfinished, outs, rfl, houts⟩ := assembled run exact
  -- raising an offset keeps the type and the length, and takes no start below 0
  have hfeedable : ∀ bc ∈ boundaries outs.flatten, Feedable type bc := by
    intro bc' hbc'
    have hend := houts.end_lt hrange hfinished hbc'
    obtain ⟨k, messages, bc, hk, hbc, hshift⟩ := houts.exists_of_mem hbc'
    obtain ⟨htype, hstart, hdur⟩ := plain messages (List.mem_of_getElem? hk) bc hbc
    have hcomp := session.le_compensation 0 (conversations t) k
    obtain ⟨raised, htype', -, hdur'⟩ := hshift.fields
    exact ⟨htype'.trans htype, by omega, hdur'.symm ▸ hdur, hend⟩
  obtain ⟨builder, cues, rfl, hcues, hall⟩ := feedAll_accepts hfeedable (by simp) feeding
  rw [List.nil_append] at hcues
  obtain ⟨parts, hparts, hcued⟩ := houts.cued (hcues ▸ hall)
  refine ⟨builder, parts, _, rfl, rfl, hparts, hcued.1.trans hlen, hcued, ?_, ?_⟩
  · intro hlt
    obtain ⟨srt, hsrt, hdecode⟩ := SrtComposer.decode_printed hlt
    cases hsrt
    exact hdecode
  · intro i j p q k l hp hq hk hl hkl
    -- the part a cue comes from
    have hpart : ∀ {p : Fin builder.cues.length} {k}, (origins parts)[p.val]? = some k →
        ∃ part, parts[k]? = some part ∧ builder.cues.get p ∈ part := fun {p k} hk =>
      Parts.exists_part_of_origins (by rw [← hparts]; exact List.getElem?_eq_getElem p.isLt) hk
    obtain ⟨part, hk', hcue⟩ := hpart hk
    obtain ⟨part', hl', hcue'⟩ := hpart hl
    have hle := hcued.stop_le_start plain hkl hk' hl' hcue hcue'
    exact ⟨SrtComposer.lt_of_stop_le_start hp hq hle, hle⟩

/-- Two chunks, with the same word each. -/
theorem subtitles_in_order_sample : ∃ t out t' builder parts,
    (sampleSession.synthesize 3 .defaults [lit "Hi", lit "Ho"] sampleProvider).Runs t
      (some (.ok out)) ∧
    (({} : SubtitleBuilder).feedAll (boundaries out)).Runs t' (.ok builder) ∧
    builder.cues = parts.flatten ∧ parts.length = 2 ∧
    ∀ (i j : Nat) (p q : Fin builder.cues.length), (printed builder.cues)[i]? = some p →
      (printed builder.cues)[j]? = some q → (origins parts)[p.val]? = some 0 →
      (origins parts)[q.val]? = some 1 →
      i < j ∧ (builder.cues.get p).stop.millis ≤ (builder.cues.get q).start.millis := by
  obtain ⟨t, out, run, hconvs⟩ := sample_run parse_word [lit "Hi", lit "Ho"]
  have exact : Exact t := (synthesize_runs run).exact_iff.mpr (hconvs ▸ sample_noOverflow)
  have plain : ∀ messages ∈ conversations t,
      Plain .wordBoundary (sampleSession.contents messages) := fun messages hmem => by
    rw [hconvs] at hmem
    rw [List.eq_of_mem_replicate hmem, (complete_of_parse parse_word).2]
    simp only [Plain, boundaries_audio, boundaries_boundary, boundaries_nil,
      List.forall_mem_singleton]
    decide
  obtain ⟨t', r, feeding⟩ := SubtitleBuilder.exists_feeding {} (boundaries out)
  obtain ⟨builder, parts, -, rfl, -, hparts, hlen, -, -, horder⟩ :=
    subtitles_in_order run exact plain feeding
  exact ⟨t, out, t', builder, parts, run, feeding, hparts, hlen,
    fun i j p q hp hq hk hl => horder i j p q 0 1 hp hq hk hl Nat.zero_lt_one⟩

end SynthesisSession
end EdgeTts
