import EdgeTts.Subtitle.SessionSubtitles

/-!
# The captions of a recording

The conversations of a session say which captions its recording has: their boundaries, each
raised by the ends of the conversations before (`captions`).  An SRT file made of the session's
chunks shows them by start and end (`Shows`); and where the service sends the boundaries of each
conversation one after another, the captions do not overlap (`captions_sequential`), and stand
in the file as they came.
-/
namespace EdgeTts

open SrtComposer (printed order order_spec keeps Precedes compose)

/-- A piece of text with its times on the recording, in milliseconds. -/
structure Caption where
  start : Nat
  stop : Nat
  text : Bytes
  deriving DecidableEq, Repr

namespace Caption

/-- The caption of a boundary on a recording that has lasted for `compensation`. -/
def ofBoundary (compensation : Int) (bc : BoundaryChunk) : Caption where
  start := (bc.offsetTicks.toInt + compensation).toNat / 10000
  stop := (bc.rawEnd + compensation).toNat / 10000
  text := bc.text

/-- The caption can be seen. -/
def isShown (caption : Caption) : Bool :=
  decide (caption.start < caption.stop) && !isBlank caption.text

/-- The caption as an entry of an SRT file. -/
def entry (caption : Caption) (index : Nat) : SrtEntry :=
  ⟨index, caption.start, caption.stop, makeLegalContent caption.text⟩

/-- By start, and then by end. -/
def NotAfter (a b : Caption) : Prop := a.start < b.start ∨ a.start = b.start ∧ a.stop ≤ b.stop

end Caption

def SubtitleCue.caption (cue : SubtitleCue) : Caption :=
  ⟨cue.start.millis, cue.stop.millis, cue.text⟩

/-! ## What a file holds -/

namespace SrtComposer

theorem isShown_caption (cue : SubtitleCue) : cue.caption.isShown = keeps cue := by
  have hle : decide (cue.start.millis < cue.stop.millis) =
      !decide (cue.start.millis ≥ cue.stop.millis) := by
    rw [← decide_not]
    exact decide_eq_decide.mpr (by omega)
  rw [Caption.isShown, keeps, ← hle]
  rfl

/-- The printed cues are the kept ones. -/
theorem printed_perm (cues : List SubtitleCue) :
    ((printed cues).map cues.get).Perm (cues.filter keeps) := by
  have hall : (List.finRange cues.length).map cues.get = cues := List.map_get_finRange cues
  have hkept : ((List.finRange cues.length).filter fun i => keeps (cues.get i)).map cues.get =
      cues.filter keeps := by
    conv_rhs => rw [← hall, List.filter_map]
    rfl
  rw [← hkept]
  exact ((order_spec cues).1.filter _).map _

end SrtComposer

/-- A file shows captions: it holds those that can be seen, by start and end and numbered from
1.  Captions of which each ends before the next one starts stand in it as they come. -/
structure Shows (srt : Bytes) (captions shown : List Caption) : Prop where
  decoded : decode srt = some ((shown.zipIdx 1).map fun p => p.1.entry p.2)
  perm : shown.Perm (captions.filter Caption.isShown)
  sorted : shown.Pairwise Caption.NotAfter
  inOrder : captions.Pairwise (fun a b => a.stop ≤ b.start) →
    shown = captions.filter Caption.isShown

/-- Captions that last, each of which ends before the next one starts, have no other order. -/
theorem Caption.eq_of_sequential {shown captions : List Caption} (perm : shown.Perm captions)
    (sorted : shown.Pairwise Caption.NotAfter)
    (lasting : ∀ caption ∈ captions, caption.start < caption.stop)
    (sequential : captions.Pairwise fun a b => a.stop ≤ b.start) : shown = captions := by
  have hstrict : captions.Pairwise fun a b => a.start < b.start :=
    sequential.imp_of_mem fun ha _ hab => (lasting _ ha).trans_le hab
  have hnodup : (captions.map Caption.start).Nodup :=
    (List.pairwise_map.mpr hstrict).imp fun hlt => hlt.ne
  have hinj := List.inj_on_of_nodup_map hnodup
  refine List.Perm.eq_of_pairwise (fun a b ha hb hab hba => ?_)
    (sorted.imp fun {a b} hab => show a.start ≤ b.start from ?_)
    (hstrict.imp fun hlt => Nat.le_of_lt hlt) perm
  · exact hinj (perm.mem_iff.mp ha) hb (Nat.le_antisymm hab hba)
  · rcases hab with hlt | ⟨heq, -⟩
    · exact Nat.le_of_lt hlt
    · exact Nat.le_of_eq heq

/-- **A file shows the captions of its cues.** -/
theorem SrtComposer.compose_shows {cues : List SubtitleCue} (h : cues.length < 2 ^ 31) :
    ∃ srt shown, compose cues = .ok srt ∧ Shows srt (cues.map SubtitleCue.caption) shown := by
  obtain ⟨srt, hsrt, hdecode⟩ := decode_printed h
  have hfilter : (cues.map SubtitleCue.caption).filter Caption.isShown =
      (cues.filter keeps).map SubtitleCue.caption := by
    rw [List.filter_map]
    exact congrArg _ (List.filter_congr fun cue _ => isShown_caption cue)
  have hperm : (((printed cues).map cues.get).map SubtitleCue.caption).Perm
      ((cues.map SubtitleCue.caption).filter Caption.isShown) := by
    rw [hfilter]
    exact (printed_perm cues).map _
  have hsorted : (((printed cues).map cues.get).map SubtitleCue.caption).Pairwise
      Caption.NotAfter := by
    rw [List.map_map, List.pairwise_map]
    refine (printed_pairwise cues).imp fun {i j} hprec => ?_
    rw [Precedes, Bool.eq_false_iff, ne_eq, before_iff, before_iff] at hprec
    show (cues.get i).start.millis < (cues.get j).start.millis ∨
      (cues.get i).start.millis = (cues.get j).start.millis ∧
        (cues.get i).stop.millis ≤ (cues.get j).stop.millis
    omega
  refine ⟨srt, _, hsrt, ?_, hperm, hsorted, fun sequential => ?_⟩
  · rw [hdecode, List.zipIdx_map (l := (printed cues).map cues.get) (f := SubtitleCue.caption),
      List.map_map]
    rfl
  · refine Caption.eq_of_sequential hperm hsorted (fun caption hmem => ?_) (sequential.filter _)
    have hshown := (List.mem_filter.mp hmem).2
    rw [Caption.isShown, Bool.and_eq_true, decide_eq_true_eq] at hshown
    exact hshown.1

/-! ## What a session makes of its conversations -/

namespace SynthesisSession
variable {session : SynthesisSession}

variable (session) in
/-- The captions of the recording. -/
def captions (convs : List (List WebSocketMessage)) : List Caption :=
  convs.zipIdx.flatMap fun p =>
    (boundaries (session.contents p.1)).map (Caption.ofBoundary (session.compensation 0 convs p.2))

theorem map_caption {compensation : Int} {bcs : List BoundaryChunk} {cues : List SubtitleCue}
    (h : List.Forall₂ (RaisedCue compensation) bcs cues) :
    cues.map SubtitleCue.caption = bcs.map (Caption.ofBoundary compensation) := by
  induction h with
  | nil => rfl
  | @cons bc cue bcs cues hd _ ih =>
      rw [List.map_cons, List.map_cons, ih]
      congr 1
      rw [SubtitleCue.caption, hd.start, hd.stop, hd.text]
      rfl

/-- The cues of the conversations show their captions. -/
theorem Cued.captions_eq {convs : List (List WebSocketMessage)} {parts : List (List SubtitleCue)}
    (h : session.Cued convs parts) :
    parts.flatten.map SubtitleCue.caption = session.captions convs := by
  rw [captions, List.flatMap_def, List.map_flatten]
  congr 1
  refine List.ext_getElem (by simp [h.1]) fun k hk hk' => ?_
  simp only [List.getElem_map, List.getElem_zipIdx, Nat.zero_add]
  have hlt : k < parts.length := by simpa using hk
  have hlt' : k < convs.length := by simpa using hk'
  exact map_caption (h.2 k _ _ (List.getElem?_eq_getElem hlt') (List.getElem?_eq_getElem hlt))

/-- What is assembled without an overflow can be fed. -/
theorem Assembles.feedable {convs : List (List WebSocketMessage)} {outs : List (List TtsChunk)}
    (h : session.Assembles 0 convs outs) (inRange : session.NoOverflow 0 convs)
    (finished : ∀ messages ∈ convs, session.Finished messages) {type : BoundaryEventType}
    (plain : ∀ messages ∈ convs, Plain type (session.contents messages)) :
    ∀ bc ∈ boundaries outs.flatten, SubtitleBuilder.Feedable type bc := by
  intro bc' hbc'
  obtain ⟨k, messages, bc, hk, hbc, hshift⟩ := h.exists_of_mem hbc'
  obtain ⟨htype, hstart, hdur⟩ := plain messages (List.mem_of_getElem? hk) bc hbc
  have hcomp := session.le_compensation 0 convs k
  obtain ⟨raised, htype', -, hdur'⟩ := hshift.fields
  exact ⟨htype'.trans htype, by omega, hdur'.symm ▸ hdur, h.end_lt inRange finished hbc'⟩

/-- **The captions of a session can be fed**, and are what the builder then holds. -/
theorem feedAll_captions {ttsConfig : TtsConfig} {texts : List Bytes} {out : List TtsChunk}
    {provider : EdgeTokenProvider} {t : SessionTrace}
    (run : session.SessionRun ttsConfig texts 0 [] provider t (some (.ok out)))
    (inRange : session.NoOverflow 0 (conversations t)) {type : BoundaryEventType}
    (plain : ∀ messages ∈ conversations t, Plain type (session.contents messages))
    {t' : Interaction.Trace Addition Addition.Reply} {r : Result SubtitleBuilder}
    (feeding : (({} : SubtitleBuilder).feedAll (boundaries out)).Runs t' r) :
    ∃ builder, r = .ok builder ∧
      builder.cues.map SubtitleCue.caption = session.captions (conversations t) := by
  obtain ⟨-, hturns, outs, rfl, houts⟩ := run.assembles (run.exact_iff.mpr inRange)
  have hfinished : ∀ messages ∈ conversations t, session.Finished messages :=
    fun messages hmem => (hturns messages hmem).1.finished (hturns messages hmem).2
  rw [List.nil_append] at feeding
  obtain ⟨builder, cues, rfl, hcues, hall⟩ :=
    SubtitleBuilder.feedAll_accepts (houts.feedable inRange hfinished plain) (by simp) feeding
  obtain ⟨parts, hparts, hcued⟩ := houts.cued hall
  refine ⟨builder, rfl, ?_⟩
  rw [hcues, ← hcued.captions_eq, hparts]
  rfl

/-! ## Captions in sequence -/

variable (session) in
/-- In each conversation the boundaries come one after another. -/
def Sequential (convs : List (List WebSocketMessage)) : Prop :=
  ∀ messages ∈ convs, (boundaries (session.contents messages)).Pairwise fun a b =>
    a.rawEnd ≤ b.offsetTicks.toInt

/-- **Captions do not overlap** if those of each conversation do not. -/
theorem captions_sequential {convs : List (List WebSocketMessage)} {type : BoundaryEventType}
    (plain : ∀ messages ∈ convs, Plain type (session.contents messages))
    (sequential : session.Sequential convs) :
    (session.captions convs).Pairwise fun a b => a.stop ≤ b.start := by
  rw [captions, List.flatMap_def, List.pairwise_flatten]
  constructor
  · intro part hpart
    obtain ⟨⟨messages, k⟩, hmem, rfl⟩ := List.mem_map.mp hpart
    rw [List.pairwise_map]
    refine (sequential messages (List.fst_mem_of_mem_zipIdx hmem)).imp fun {a b} hab => ?_
    exact Nat.div_le_div_right (Int.toNat_le_toNat (by omega))
  · -- a boundary ends before the next conversation starts
    rw [List.pairwise_map, List.pairwise_iff_getElem]
    intro k l hk hl hkl a ha b hb
    simp only [List.getElem_zipIdx, Nat.zero_add] at ha hb
    obtain ⟨bc, hbc, rfl⟩ := List.mem_map.mp ha
    obtain ⟨bc', hbc', rfl⟩ := List.mem_map.mp hb
    have hk' : k < convs.length := by simpa using hk
    obtain ⟨-, hstart, -⟩ := plain _ (List.getElem_mem _) bc' hbc'
    have hle := rawEnd_le_compensation 0 (List.getElem?_eq_getElem hk') hkl hbc
    exact Nat.div_le_div_right (Int.toNat_le_toNat (by omega))

end SynthesisSession
end EdgeTts
