import EdgeTts.Lib.Decimal
import EdgeTts.Lib.Calendar
import EdgeTts.Serialization.Protocol
import EdgeTts.Serialization.SsmlBuilder

/-!
# `communication/EdgeProtocol.cpp`

The two outgoing frames.  Timestamps and the configuration body are written with
`snprintf` into buffers of fixed size; `jsTimestamp` and `speechConfigBody` are the
whole texts, and the buffers hold them without loss when the year has four digits.
-/
namespace EdgeTts

open Calendar (gmtime Tm)

/-- `system_clock::time_point`, in nanoseconds since the epoch. -/
abbrev TimePoint := Int

/-- `system_clock::to_time_t`, a `duration_cast` to seconds. -/
def toTimeT (tp : TimePoint) : Int := tp.tdiv 1000000000

def kWeekdays (wday : Fin 7) : Bytes :=
  [lit "Sun", lit "Mon", lit "Tue", lit "Wed", lit "Thu", lit "Fri", lit "Sat"].get wday

def kMonths (mon : Fin 12) : Bytes :=
  [lit "Jan", lit "Feb", lit "Mar", lit "Apr", lit "May", lit "Jun",
    lit "Jul", lit "Aug", lit "Sep", lit "Oct", lit "Nov", lit "Dec"].get mon

/-- The text of a timestamp,
`%s %s %02d %04d %02d:%02d:%02d GMT+0000 (Coordinated Universal Time)`. -/
def jsTimestamp (gmt : Tm) : Bytes :=
  kWeekdays gmt.wday ++ lit " " ++ kMonths gmt.mon ++ lit " " ++ Decimal.ofInt 2 gmt.mday ++
    lit " " ++ Decimal.ofInt 4 gmt.year ++ lit " " ++ Decimal.ofInt 2 gmt.hour ++ lit ":" ++
    Decimal.ofInt 2 gmt.min ++ lit ":" ++ Decimal.ofInt 2 gmt.sec ++
    lit " GMT+0000 (Coordinated Universal Time)"

/-- `format_js_timestamp`. -/
def formatJsTimestamp (tp : TimePoint) : Bytes := snprintf 64 (jsTimestamp (gmtime (toTimeT tp)))

/-- `communication::ConnectionMetadata`. -/
structure ConnectionMetadata where
  connectionId : Bytes
  requestId : Bytes
  deriving DecidableEq, Repr

/-- The text of the `speech.config` body. -/
def speechConfigBody (sentence word format : Bytes) : Bytes :=
  lit "\x7b\"context\":\x7b\"synthesis\":\x7b\"audio\":\x7b\"metadataoptions\":\x7b" ++
    lit "\"sentenceBoundaryEnabled\":\"" ++ sentence ++
    lit "\",\"wordBoundaryEnabled\":\"" ++ word ++
    lit "\"\x7d,\"outputFormat\":\"" ++ format ++ lit "\"\x7d\x7d\x7d\x7d\r\n"

/-- `build_speech_config_frame`, where the clock reads `now`. -/
def buildSpeechConfigFrame (config : TtsConfig) (_metadata : ConnectionMetadata)
    (now : TimePoint) : Result Bytes :=
  let wordBoundary := config.boundaryType = .word
  let wd := if wordBoundary then lit "true" else lit "false"
  let sq := if wordBoundary then lit "false" else lit "true"
  let timestamp := formatJsTimestamp now
  let body := snprintf 256 (speechConfigBody sq wd (config.outputFormat.value.takeWhile (· != 0)))
  .ok (ProtocolSerializer.serialize {
    headers := [(lit "X-Timestamp", timestamp),
      (lit "Content-Type", lit "application/json; charset=utf-8"),
      (lit "Path", lit "speech.config")]
    body })

/-- `build_ssml_frame`, where the clock reads `now`. -/
def buildSsmlFrame (config : TtsConfig) (textChunk : Bytes) (metadata : ConnectionMetadata)
    (now : TimePoint) : Outcome Bytes := do
  let ssml ← SsmlBuilder.buildFromEscapedText config textChunk
  let timestamp := formatJsTimestamp now ++ lit "Z"
  return ProtocolSerializer.serialize {
    headers := [(lit "X-RequestId", metadata.requestId),
      (lit "Content-Type", lit "application/ssml+xml"),
      (lit "X-Timestamp", timestamp),
      (lit "Path", lit "ssml")]
    body := ssml }

theorem buildSsmlFrame_returns (config : TtsConfig) (textChunk : Bytes)
    (metadata : ConnectionMetadata) (now : TimePoint) :
    (buildSsmlFrame config textChunk metadata now).Returns := by
  intro x h
  have hr := SsmlBuilder.buildFromEscapedText_returns config textChunk
  rw [buildSsmlFrame] at h
  cases hb : SsmlBuilder.buildFromEscapedText config textChunk with
  | ok ssml =>
      rw [hb] at h
      cases h
  | fail e =>
      rw [hb] at h
      cases h
  | escape y => exact hr y hb

theorem buildSpeechConfigFrame_ok (config : TtsConfig) (metadata : ConnectionMetadata)
    (now : TimePoint) : ∃ frame, buildSpeechConfigFrame config metadata now = .ok frame :=
  ⟨_, rfl⟩

theorem buildSsmlFrame_ok {config : TtsConfig} (valid : validateTtsConfig config = .ok ())
    (textChunk : Bytes) (metadata : ConnectionMetadata) (now : TimePoint) :
    ∃ frame, buildSsmlFrame config textChunk metadata now = .ok frame := by
  rcases validateAndNormalizeVoice_eq config with ⟨voice, -, -, hv⟩ | ⟨e, he, -⟩
  · exact ⟨_, by rw [buildSsmlFrame, SsmlBuilder.buildFromEscapedText, hv]; rfl⟩
  · rw [valid] at he
    cases he

/-! ## The buffers are large enough -/

theorem kWeekdays_spec (wday : Fin 7) :
    (kWeekdays wday).length = 3 ∧ (0 : UInt8) ∉ kWeekdays wday ∧
      (0x0D : UInt8) ∉ kWeekdays wday := by
  revert wday
  decide

theorem kMonths_spec (mon : Fin 12) :
    (kMonths mon).length = 3 ∧ (0 : UInt8) ∉ kMonths mon ∧ (0x0D : UInt8) ∉ kMonths mon := by
  revert mon
  decide

/-- A number that fits its width is printed with digits only, on exactly the width. -/
theorem ofInt_spec (width : Nat) {n : Int} (hw : 0 < width) (h : 0 ≤ n) (h' : n < 10 ^ width) :
    (Decimal.ofInt width n).length = width ∧ (0 : UInt8) ∉ Decimal.ofInt width n ∧
      (0x0D : UInt8) ∉ Decimal.ofInt width n := by
  rw [Decimal.ofInt_of_nonneg h]
  have hdigit : ∀ c ∈ Decimal.pad width (Decimal.ofNat n.toNat), Decimal.IsDigit c :=
    fun c hc => Decimal.isDigit_of_mem_pad (fun d hd => Decimal.isDigit_of_mem_ofNat hd) hc
  have hn : n.toNat < 10 ^ width := by
    have : ((n.toNat : Int)) < ((10 ^ width : Nat) : Int) := by
      rw [Int.toNat_of_nonneg h]
      simpa using h'
    exact_mod_cast this
  exact ⟨Decimal.length_pad_ofNat hw hn,
    fun hm => absurd (hdigit _ hm) (by decide), fun hm => absurd (hdigit _ hm) (by decide)⟩

/-- A timestamp with a four-digit year takes 62 bytes and holds neither NUL nor CR. -/
theorem jsTimestamp_spec {gmt : Tm} (hy : 0 ≤ gmt.year) (hy' : gmt.year < 10000) :
    (jsTimestamp gmt).length = 62 ∧ (0 : UInt8) ∉ jsTimestamp gmt ∧
      (0x0D : UInt8) ∉ jsTimestamp gmt := by
  obtain ⟨w1, w2, w3⟩ := kWeekdays_spec gmt.wday
  obtain ⟨m1, m2, m3⟩ := kMonths_spec gmt.mon
  have hmday := gmt.mday_le
  have hhour := gmt.hour_lt
  have hmin := gmt.min_lt
  have hsec := gmt.sec_lt
  obtain ⟨d1, d2, d3⟩ := ofInt_spec 2 (n := gmt.mday) (by omega) (by omega) (by omega)
  obtain ⟨y1, y2, y3⟩ := ofInt_spec 4 (n := gmt.year) (by omega) hy (by omega)
  obtain ⟨h1, h2, h3⟩ := ofInt_spec 2 (n := gmt.hour) (by omega) (by omega) (by omega)
  obtain ⟨n1, n2, n3⟩ := ofInt_spec 2 (n := gmt.min) (by omega) (by omega) (by omega)
  obtain ⟨s1, s2, s3⟩ := ofInt_spec 2 (n := gmt.sec) (by omega) (by omega) (by omega)
  have hl : (lit " ").length = 1 ∧ (lit ":").length = 1 ∧
    (lit " GMT+0000 (Coordinated Universal Time)").length = 38 := by decide
  have hmem : ∀ c : UInt8, c = 0 ∨ c = 0x0D → c ∉ lit " " ∧ c ∉ lit ":" ∧
      c ∉ lit " GMT+0000 (Coordinated Universal Time)" := by
    rintro c (rfl | rfl) <;> decide
  refine ⟨?_, ?_, ?_⟩
  · simp only [jsTimestamp, List.length_append, w1, m1, d1, y1, h1, n1, s1, hl]
  · obtain ⟨e1, e2, e3⟩ := hmem 0 (Or.inl rfl)
    simp only [jsTimestamp, List.mem_append, w2, m2, d2, y2, h2, n2, s2, e1, e2, e3, or_self,
      not_false_eq_true]
  · obtain ⟨e1, e2, e3⟩ := hmem 0x0D (Or.inr rfl)
    simp only [jsTimestamp, List.mem_append, w3, m3, d3, y3, h3, n3, s3, e1, e2, e3, or_self,
      not_false_eq_true]

/-- The timestamp buffer is large enough for every four-digit year. -/
theorem formatJsTimestamp_eq {tp : TimePoint} (hy : 0 ≤ (gmtime (toTimeT tp)).year)
    (hy' : (gmtime (toTimeT tp)).year < 10000) :
    formatJsTimestamp tp = jsTimestamp (gmtime (toTimeT tp)) := by
  obtain ⟨hlen, hnul, -⟩ := jsTimestamp_spec hy hy'
  exact snprintf_of_fits (by omega) hnul

theorem outputFormat_value (f : OutputFormat) : f.value = lit "audio-24khz-48kbitrate-mono-mp3" :=
  List.mem_singleton.mp f.known

set_option maxRecDepth 10000 in
/-- The body buffer is large enough for every configuration. -/
theorem speechConfigBody_fits (config : TtsConfig) {sentence word : Bytes}
    (hs : sentence = lit "true" ∨ sentence = lit "false")
    (hw : word = lit "true" ∨ word = lit "false") :
    snprintf 256 (speechConfigBody sentence word (config.outputFormat.value.takeWhile (· != 0))) =
      speechConfigBody sentence word config.outputFormat.value := by
  have hformat : (lit "audio-24khz-48kbitrate-mono-mp3").takeWhile (· != 0) =
    lit "audio-24khz-48kbitrate-mono-mp3" := by decide
  rw [outputFormat_value, hformat]
  refine snprintf_of_fits ?_ ?_
  · rcases hs with rfl | rfl <;> rcases hw with rfl | rfl <;> decide
  · rcases hs with rfl | rfl <;> rcases hw with rfl | rfl <;> decide

theorem speechConfigBody_crlf (sentence word format : Bytes) :
    ∃ json, speechConfigBody sentence word format = json ++ kCrlf := by
  have hend : lit "\"\x7d\x7d\x7d\x7d\r\n" = lit "\"\x7d\x7d\x7d\x7d" ++ kCrlf := rfl
  rw [speechConfigBody, hend, ← List.append_assoc]
  exact ⟨_, rfl⟩

/-! ## The frames are read back -/

/-- A hexadecimal digit. -/
def isHexDigit (c : UInt8) : Bool :=
  (0x30 ≤ c && c ≤ 0x39) || (0x41 ≤ c && c ≤ 0x46) || (0x61 ≤ c && c ≤ 0x66)

/-- Without a CR there is no line end to be confused with. -/
theorem headerFits_of_no_cr {name value : Bytes} (hcolon : kColon ∉ name)
    (hname : (0x0D : UInt8) ∉ name) (hvalue : (0x0D : UInt8) ∉ value) :
    HeaderFits (name, value) := by
  refine ⟨hcolon, fun hi => ?_⟩
  have hm : (0x0D : UInt8) ∈ name ++ kColon :: value := hi.subset (by decide)
  rcases List.mem_append.mp hm with hm | hm
  · exact hname hm
  · rcases List.mem_cons.mp hm with hm | hm
    · exact absurd hm (by decide)
    · exact hvalue hm

/-- The value of a flag, a JSON string. -/
def flag (b : Bool) : Bytes := if b then lit "true" else lit "false"

/-- **The configuration frame decodes to what was meant.** -/
theorem parse_buildSpeechConfigFrame (config : TtsConfig) (metadata : ConnectionMetadata)
    {now : TimePoint} (hy : 0 ≤ (gmtime (toTimeT now)).year)
    (hy' : (gmtime (toTimeT now)).year < 10000) :
    ∃ frame, buildSpeechConfigFrame config metadata now = .ok frame ∧
      ProtocolParser.parse frame = .ok {
        headers := [(lit "X-Timestamp", jsTimestamp (gmtime (toTimeT now))),
          (lit "Content-Type", lit "application/json; charset=utf-8"),
          (lit "Path", lit "speech.config")]
        body := speechConfigBody (flag (config.boundaryType = .sentence))
          (flag (config.boundaryType = .word)) config.outputFormat.value } := by
  refine ⟨_, rfl, ?_⟩
  rw [formatJsTimestamp_eq hy hy', speechConfigBody_fits config
    (by split <;> simp) (by split <;> simp)]
  have hflags : (if config.boundaryType = .word then lit "false" else lit "true") =
      flag (config.boundaryType = .sentence) ∧
      (if config.boundaryType = .word then lit "true" else lit "false") =
      flag (config.boundaryType = .word) := by
    cases config.boundaryType <;> exact ⟨rfl, rfl⟩
  rw [hflags.1, hflags.2]
  refine ProtocolParser.parse_serialize (by simp) ?_
  simp only [List.forall_mem_cons, List.not_mem_nil, false_implies, implies_true, and_true]
  refine ⟨headerFits_of_no_cr (by decide) (by decide) (jsTimestamp_spec hy hy').2.2,
    headerFits_of_no_cr (by decide) (by decide) (by decide),
    headerFits_of_no_cr (by decide) (by decide) (by decide)⟩

/-- **The SSML frame decodes to what was meant**, whatever bytes the chunk holds. -/
theorem parse_buildSsmlFrame {config : TtsConfig} {metadata : ConnectionMetadata}
    {now : TimePoint} (hval : validateTtsConfig config = .ok ())
    (hid : ∀ c ∈ metadata.requestId, isHexDigit c = true)
    (hy : 0 ≤ (gmtime (toTimeT now)).year) (hy' : (gmtime (toTimeT now)).year < 10000)
    (textChunk : Bytes) :
    ∃ voice frame, normalizeVoiceName config.voice = some voice ∧
      buildSsmlFrame config textChunk metadata now = .ok frame ∧
      ProtocolParser.parse frame = .ok {
        headers := [(lit "X-RequestId", metadata.requestId),
          (lit "Content-Type", lit "application/ssml+xml"),
          (lit "X-Timestamp", jsTimestamp (gmtime (toTimeT now)) ++ lit "Z"),
          (lit "Path", lit "ssml")]
        body := assembleSsml voice config textChunk } := by
  rcases validateAndNormalizeVoice_eq config with ⟨voice, -, hvoice, hv⟩ | ⟨e, he, -⟩
  · refine ⟨voice, _, hvoice, by rw [buildSsmlFrame, SsmlBuilder.buildFromEscapedText, hv]; rfl, ?_⟩
    rw [formatJsTimestamp_eq hy hy']
    have hidcr : (0x0D : UInt8) ∉ metadata.requestId := fun hm => absurd (hid _ hm) (by decide)
    have hts : (0x0D : UInt8) ∉ jsTimestamp (gmtime (toTimeT now)) ++ lit "Z" := by
      rw [List.mem_append, not_or]
      exact ⟨(jsTimestamp_spec hy hy').2.2, by decide⟩
    refine ProtocolParser.parse_serialize (by simp) ?_
    simp only [List.forall_mem_cons, List.not_mem_nil, false_implies, implies_true, and_true]
    exact ⟨headerFits_of_no_cr (by decide) (by decide) hidcr,
      headerFits_of_no_cr (by decide) (by decide) (by decide),
      headerFits_of_no_cr (by decide) (by decide) hts,
      headerFits_of_no_cr (by decide) (by decide) (by decide)⟩
  · rw [hval] at he
    cases he

/-- **Outgoing frames decode to what was meant.**  At every clock time with a
four-digit year the SSML frame holds the chunk verbatim, and the configuration frame
holds the whole body with the flag of the chosen boundary type set and the other not. -/
theorem outgoingFrames_decode {config : TtsConfig} {metadata : ConnectionMetadata}
    {now : TimePoint} (hval : validateTtsConfig config = .ok ())
    (hid : ∀ c ∈ metadata.requestId, isHexDigit c = true)
    (hy : 0 ≤ (gmtime (toTimeT now)).year) (hy' : (gmtime (toTimeT now)).year < 10000)
    (textChunk : Bytes) :
    (∃ voice frame, normalizeVoiceName config.voice = some voice ∧
      buildSsmlFrame config textChunk metadata now = .ok frame ∧
      ProtocolParser.parse frame = .ok {
        headers := [(lit "X-RequestId", metadata.requestId),
          (lit "Content-Type", lit "application/ssml+xml"),
          (lit "X-Timestamp", jsTimestamp (gmtime (toTimeT now)) ++ lit "Z"),
          (lit "Path", lit "ssml")]
        body := assembleSsml voice config textChunk }) ∧
    ∃ frame json, buildSpeechConfigFrame config metadata now = .ok frame ∧
      speechConfigBody (flag (config.boundaryType = .sentence))
        (flag (config.boundaryType = .word)) config.outputFormat.value = json ++ kCrlf ∧
      ProtocolParser.parse frame = .ok {
        headers := [(lit "X-Timestamp", jsTimestamp (gmtime (toTimeT now))),
          (lit "Content-Type", lit "application/json; charset=utf-8"),
          (lit "Path", lit "speech.config")]
        body := json ++ kCrlf } := by
  refine ⟨parse_buildSsmlFrame hval hid hy hy' textChunk, ?_⟩
  obtain ⟨frame, hframe, hparse⟩ := parse_buildSpeechConfigFrame config metadata hy hy'
  obtain ⟨json, hjson⟩ := speechConfigBody_crlf (flag (config.boundaryType = .sentence))
    (flag (config.boundaryType = .word)) config.outputFormat.value
  exact ⟨frame, json, hframe, hjson, hjson ▸ hparse⟩

/-- A chunk that looks like the end of a header section, on the first day of 2024. -/
theorem outgoingFrames_decode_separator :
    ∃ voice frame, buildSsmlFrame .defaults kSeparator ⟨lit "c0", lit "0f"⟩ 1704067200000000000 =
        .ok frame ∧
      ∃ headers, ProtocolParser.parse frame = .ok {
        headers, body := assembleSsml voice .defaults kSeparator } := by
  obtain ⟨voice, frame, -, hframe, hparse⟩ := (@outgoingFrames_decode .defaults
    ⟨lit "c0", lit "0f"⟩ 1704067200000000000 validateTtsConfig_defaults
    (by decide +kernel) (by decide +kernel) (by decide +kernel) kSeparator).1
  exact ⟨voice, frame, hframe, _, hparse⟩

end EdgeTts
