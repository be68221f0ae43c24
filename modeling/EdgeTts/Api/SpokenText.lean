import EdgeTts.Api.ProductionSynthesizer
import EdgeTts.Api.SingleUse
import EdgeTts.Serialization.ChunkText

/-!
# What the service is asked to speak

From the text of a `SpeechSynthesizer` to the frames on its connections, over the whole stack.
`Talk.read` is what a server decodes of one connection: the parameters of the URL, the
configuration, and the fields of the SSML document.  A call that succeeds has made one
connection for each chunk of its text, after one refused upgrade request at most, and sent nothing
else, and what a server decodes of these connections is the configuration that was given and the
text (`call_spoken`).
-/
namespace EdgeTts

open Interaction (Prog Event Trace CarriedOut)
open Interaction.Prog (runs_bind)
open Calendar (gmtime)

/-! ## The wire of the stack -/

def stackWireEvent : Event StackCommand StackReply → Option WireEvent
  | ⟨.connect url _, .error _⟩ => some (.refused url)
  | ⟨.connect url _, .ok _⟩ => some (.opened url)
  | ⟨.sendText payload, _⟩ => some (.sent payload)
  | ⟨.receive, .ok message⟩ => some (.got message)
  | ⟨.close, _⟩ => some .closed
  | _ => none

/-- What the service sees of a run of the stack. -/
def stackWire (t : StackTrace) : List WireEvent := t.filterMap stackWireEvent

@[simp] theorem stackWire_append (t t' : StackTrace) :
    stackWire (t ++ t') = stackWire t ++ stackWire t' := List.filterMap_append

theorem stackWire_eq_nil {t : StackTrace} (h : ∀ ev ∈ t, stackWireEvent ev = none) :
    stackWire t = [] := List.filterMap_eq_nil_iff.mpr h

theorem stackWire_drawnWords (words : RandomTrace) : stackWire (drawnWords words) = [] := by
  refine stackWire_eq_nil fun ev hev => ?_
  obtain ⟨c, reply⟩ := ev
  obtain rfl : c = .rng := mem_drawnWords hev
  rfl

section
variable {synth : ProductionSynthesizer}

/-- **The service sees the session**, call by call. -/
theorem sessionHandler_wire (c : Command) (r : Reply c) (t : StackTrace)
    (h : (synth.sessionHandler c).Runs t (some r)) :
    t.filterMap stackWireEvent = (wireEvent ⟨c, r⟩).toList := by
  cases c with
  | createForRequest =>
      obtain ⟨words, rfl, -⟩ := runs_draw.mp (runs_some_map.mp h)
      exact stackWire_drawnWords words
  | connect url =>
      rw [runs_some_perform.mp h]
      cases r <;> rfl
  | sendText payload =>
      rw [runs_some_perform.mp h]
      cases r <;> rfl
  | receive =>
      rw [runs_some_perform.mp h]
      cases r <;> rfl
  | _ =>
      rw [runs_some_perform.mp h]
      rfl

theorem carriedOut_wire {sessionTrace : SessionTrace} {t : StackTrace}
    (h : CarriedOut synth.sessionHandler sessionTrace t) : stackWire t = wire sessionTrace :=
  h.filterMap_eq sessionHandler_wire

/-- Outside the injected synthesizer there is no wire. -/
theorem apiHandler_wire {fuel : Nat} {c : ApiCommand} {r : ApiReply c} {t : StackTrace}
    (hc : NotSynthesizer c) (h : (synth.apiHandler fuel c).Runs t (some r)) :
    ∀ ev ∈ t, stackWireEvent ev = none := by
  cases c with
  | synthesizer config chunks => exact absurd rfl (hc config chunks)
  | _ =>
      rw [runs_some_perform.mp h]
      exact List.forall_mem_singleton.mpr rfl

theorem carriedOut_quiet {fuel : Nat} {apiTrace : ApiTrace} {t : StackTrace}
    (hquiet : ∀ ev ∈ apiTrace, NotSynthesizer ev.1)
    (h : CarriedOut (synth.apiHandler fuel) apiTrace t) : stackWire t = [] :=
  stackWire_eq_nil (h.forall_mem fun _ _ _ hrun hmem => apiHandler_wire (hquiet _ hmem) hrun)

end

/-! ## Calls that succeed -/

/-- The call has come to a good end. -/
def Returned.Succeeded : Returned → Prop
  | .chunks (.ok _) | .done (.ok _) => True
  | _ => False

instance : DecidablePred Returned.Succeeded
  | .chunks (.ok _) | .done (.ok _) => isTrue trivial
  | .chunks (.fail _) | .chunks (.escape _) | .done (.fail _) | .done (.escape _) => isFalse id

theorem runOnce_succeeds {α : Type} {s s' : SpeechSynthesizer}
    {finish : Outcome (List TtsChunk) → Prog ApiCommand ApiReply (Outcome α)}
    {wrap : Outcome α → Returned} {t : ApiTrace} {returned : Returned}
    (issues : ∀ synthesis, (finish synthesis).Issues NotSynthesizer)
    (fails : ∀ {e t result}, (finish (.fail e)).Runs t result → ¬ (wrap result).Succeeded)
    (escapes : ∀ {x t result}, (finish (.escape x)).Runs t result → ¬ (wrap result).Succeeded)
    (repeated : ∀ e, ¬ (wrap (.fail e)).Succeeded) (good : returned.Succeeded)
    (run : (do
      let (s, result) ← s.runOnce finish
      return (s, wrap result)).Runs t (s', returned)) :
    ∃ t₁ t₂ chunks, t = t₁ ++ t₂ ∧ s.runPipeline.Runs t₁ (.ok chunks) ∧
      ∀ ev ∈ t₂, NotSynthesizer ev.1 := by
  obtain ⟨result, hrun, rfl⟩ := runOnce_wrapped run
  rcases runOnce_cases hrun with ⟨-, -, -, rfl⟩ | ⟨-, -, t₁, t₂, synthesis, rfl, hpipeline, hfin⟩
  · exact absurd good (repeated _)
  · cases synthesis with
    | ok chunks => exact ⟨t₁, t₂, chunks, rfl, hpipeline, (issues _).of_runs hfin⟩
    | fail e => exact absurd good (fails hfin)
    | escape x => exact absurd good (escapes hfin)

/-- A call that succeeds has got chunks from its pipeline, and leaves the synthesizer alone
after that. -/
theorem call_succeeds {s s' : SpeechSynthesizer} {c : Call} {t : ApiTrace} {returned : Returned}
    (consumes : c.Consumes) (run : (s.call c).Runs t (s', returned))
    (good : returned.Succeeded) :
    ∃ t₁ t₂ chunks, t = t₁ ++ t₂ ∧ s.runPipeline.Runs t₁ (.ok chunks) ∧
      ∀ ev ∈ t₂, NotSynthesizer ev.1 := by
  cases c with
  | synthesize =>
      refine runOnce_succeeds ?_ ?_ ?_ (fun e => id) good run
      · intro synthesis
        trivial
      · rintro e t result ⟨-, rfl⟩
        exact id
      · rintro x t result ⟨-, rfl⟩
        exact id
  | save mediaPath subtitlesPath =>
      refine runOnce_succeeds (saveFiles_issues mediaPath subtitlesPath) ?_ ?_ (fun e => id) good
        run
      · rintro e t result ⟨-, rfl⟩
        exact id
      · rintro x t result ⟨-, rfl⟩
        exact id
  | synthesizeStream callbacks =>
      refine runOnce_succeeds (stream_issues callbacks) ?_ ?_ (fun e => id) good run
      · intro e t result h
        obtain ⟨_, _, _, -, -, -, rfl⟩ := runs_bind.mp h
        exact id
      · rintro x t result ⟨-, rfl⟩
        exact id
  | cancel => exact absurd consumes id

/-! ## The session of a call -/

/-- A run of the stack in which a session has made the chunks of the text. -/
structure Synthesis (synth : ProductionSynthesizer) (s : SpeechSynthesizer) (u : StackTrace)
    (texts : List Bytes) (sessionTrace : SessionTrace) (chunks : List TtsChunk) : Prop where
  chunked : defaultChunker.chunk s.text = .ok texts
  valid : texts ≠ [] → validateTtsConfig s.config = .ok ()
  run : synth.session.SessionRun s.config texts 0 [] synth.tokenProvider sessionTrace
    (some (.ok chunks))
  wire_eq : stackWire u = wire sessionTrace
  clock : ∀ now, ⟨.now, now⟩ ∈ sessionTrace → ⟨.now, now⟩ ∈ u
  ids : ∀ metadata, ⟨.createForRequest, metadata⟩ ∈ sessionTrace →
    IsId metadata.connectionId ∧ IsId metadata.requestId

theorem Synthesis.mono {synth : ProductionSynthesizer} {s : SpeechSynthesizer}
    {u before after : StackTrace} {texts : List Bytes} {sessionTrace : SessionTrace}
    {chunks : List TtsChunk} (h : Synthesis synth s u texts sessionTrace chunks)
    (hbefore : stackWire before = []) (hafter : stackWire after = []) :
    Synthesis synth s (before ++ (u ++ after)) texts sessionTrace chunks where
  chunked := h.chunked
  valid := h.valid
  run := h.run
  wire_eq := by simp [hbefore, hafter, h.wire_eq]
  clock := fun now hnow => by simp [h.clock now hnow]
  ids := h.ids

/-- **A pipeline that returns chunks** has run a session for them; for a text without chunks it
is the session that has nothing to do. -/
theorem PipelineRun.synthesis {synth : ProductionSynthesizer} {fuel : Nat} {s : SpeechSynthesizer}
    {t : ApiTrace} {u : StackTrace} {chunks : List TtsChunk} (run : PipelineRun s t (.ok chunks))
    (hc : CarriedOut (synth.apiHandler fuel) t u) :
    ∃ texts sessionTrace, Synthesis synth s u texts sessionTrace chunks := by
  generalize hr : Outcome.ok chunks = r at run
  cases run with
  | cancelled => cases hr
  | refused => cases hr
  | noText chunked =>
      cases hr
      refine ⟨[], [], chunked, fun hne => absurd rfl hne, .done, ?_, nofun, nofun⟩
      refine carriedOut_quiet ?_ hc
      exact List.forall_mem_singleton.mpr nofun
  | @called texts ready reply =>
      subst hr
      cases hc with
      | cons check rest =>
          cases rest with
          | cons session rest =>
              obtain rfl := Interaction.carriedOut_nil.mp rest
              obtain rfl := runs_some_perform.mp check
              obtain ⟨sessionTrace, hrun, hsession⟩ := synthesizer_runs.mp session
              refine ⟨texts, sessionTrace, ready.chunked, fun _ => ready.valid,
                SynthesisSession.synthesize_runs hrun, ?_, fun now hnow => ?_,
                fun metadata hmeta => ?_⟩
              · rw [List.append_nil, stackWire_append, carriedOut_wire hsession]
                rfl
              · obtain ⟨v, hv, hpart⟩ := hsession.run_of_mem hnow
                rw [runs_some_perform.mp hv] at hpart
                simp [hpart.subset (List.mem_singleton_self _)]
              · obtain ⟨v, hv, -⟩ := hsession.run_of_mem hmeta
                obtain ⟨words, -, hdrawn⟩ := runs_draw.mp (runs_some_map.mp hv)
                exact isId_of_runs hdrawn

/-- **A call that succeeds** has run a session for the chunks of its text. -/
theorem call_synthesis {synth : ProductionSynthesizer} {fuel : Nat} {s s' : SpeechSynthesizer}
    {c : Call} {t : ApiTrace} {u : StackTrace} {returned : Returned} (consumes : c.Consumes)
    (run : (s.call c).Runs t (s', returned)) (good : returned.Succeeded)
    (hc : CarriedOut (synth.apiHandler fuel) t u) :
    ∃ t₁ t₂ texts sessionTrace chunks, t = t₁ ++ t₂ ∧ s.runPipeline.Runs t₁ (.ok chunks) ∧
      Synthesis synth s u texts sessionTrace chunks := by
  obtain ⟨t₁, t₂, chunks, rfl, hpipeline, hquiet⟩ := call_succeeds consumes run good
  obtain ⟨u₁, u₂, rfl, hc₁, hc₂⟩ := hc.split
  obtain ⟨texts, sessionTrace, hsynthesis⟩ := (runPipeline_runs hpipeline).synthesis hc₁
  exact ⟨t₁, t₂, texts, sessionTrace, chunks, rfl, hpipeline,
    show Synthesis synth s ([] ++ (u₁ ++ u₂)) _ _ _ from
      hsynthesis.mono rfl (carriedOut_quiet hquiet hc₂)⟩

/-- The same on the stack, where the words for the headers are drawn before. -/
theorem production_synthesis {jsonParse : Bytes → JsonParse} {fuel : Nat}
    {s s' : SpeechSynthesizer} {c : Call} {t : StackTrace} {returned : Returned}
    (consumes : c.Consumes)
    (run : (production jsonParse fuel (s.call c)).Runs t (some (s', returned)))
    (good : returned.Succeeded) :
    ∃ headers texts sessionTrace chunks,
      Synthesis (stackSynthesizer jsonParse headers) s t texts sessionTrace chunks := by
  obtain ⟨words, synth, u, apiTrace, rfl, hmake, hcall, hc⟩ := stack_runs.mp run
  obtain ⟨headers, -, rfl⟩ := runs_makeProductionSynthesizer.mp hmake
  obtain ⟨-, -, texts, sessionTrace, chunks, -, -, hsynthesis⟩ :=
    call_synthesis consumes hcall good hc
  have hmono := hsynthesis.mono (stackWire_drawnWords words) (show stackWire [] = [] from rfl)
  rw [List.append_nil] at hmono
  exact ⟨headers, texts, sessionTrace, chunks, hmono⟩

/-! ## What a server decodes -/

/-- The contents of the frames and of the URL of a connection. -/
structure Request where
  params : List (Bytes × Bytes)
  config : Bytes
  requestId : Option Bytes
  fields : SsmlFields

/-- What a call returns, if it returns a value. -/
def Outcome.toOption {α : Type} : Outcome α → Option α
  | .ok a => some a
  | .fail _ | .escape _ => none

/-- Read the URL, the configuration frame and the SSML frame of a connection. -/
def Talk.read (talk : Talk) : Option Request := do
  let params ← readQuery talk.url
  let config ← (ProtocolParser.parse talk.config).toOption
  guard (config.header (lit "Path") = some (lit "speech.config"))
  let ssml ← (ProtocolParser.parse talk.ssml).toOption
  guard (ssml.header (lit "Path") = some (lit "ssml"))
  let fields ← readSsml ssml.body
  return { params, config := config.body, requestId := ssml.header (lit "X-RequestId"), fields }

theorem Talk.read_eq {talk : Talk} {params : List (Bytes × Bytes)} {config ssml : ProtocolMessage}
    {fields : SsmlFields} (hparams : readQuery talk.url = some params)
    (hconfig : ProtocolParser.parse talk.config = .ok config)
    (hconfigPath : config.header (lit "Path") = some (lit "speech.config"))
    (hssml : ProtocolParser.parse talk.ssml = .ok ssml)
    (hssmlPath : ssml.header (lit "Path") = some (lit "ssml"))
    (hfields : readSsml ssml.body = some fields) :
    talk.read = some ⟨params, config.body, ssml.header (lit "X-RequestId"), fields⟩ := by
  rw [Talk.read, hparams, hconfig, hssml, Outcome.toOption, Outcome.toOption, Option.bind_eq_bind,
    Option.bind_some, Option.bind_eq_bind, Option.bind_some]
  simp only [hconfigPath, hssmlPath, hfields, guard_true, Option.bind_eq_bind, Option.bind_some,
    Option.pure_def]

/-- The parameters of an upgrade request, among them an identifier and a token. -/
def UpgradeParams (params : List (Bytes × Bytes)) : Prop :=
  ∃ id token, IsId id ∧ IsToken token ∧ params = [
    (lit "TrustedClientToken", defaultEdgeServiceConfig.trustedClientToken),
    (lit "ConnectionId", id), (lit "Sec-MS-GEC", token),
    (lit "Sec-MS-GEC-Version", defaultEdgeServiceConfig.secMsGecVersion)]

/-- The request is to speak the text with the configuration, under identifiers and a token. -/
structure Request.Asks (request : Request) (ttsConfig : TtsConfig) (text : Bytes) : Prop where
  params : UpgradeParams request.params
  requestId : ∃ id, IsId id ∧ request.requestId = some id
  config : request.config = speechConfigBody (flag (ttsConfig.boundaryType = .sentence))
    (flag (ttsConfig.boundaryType = .word)) ttsConfig.outputFormat.value
  voice : normalizeVoiceName ttsConfig.voice = some request.fields.voice
  pitch : request.fields.pitch = ttsConfig.pitch
  rate : request.fields.rate = ttsConfig.rate
  volume : request.fields.volume = ttsConfig.volume
  content : request.fields.content = text

/-- The clock shows a year with four digits. -/
def FourDigitYear (now : TimePoint) : Prop :=
  0 ≤ (gmtime (toTimeT now)).year ∧ (gmtime (toTimeT now)).year < 10000

instance : DecidablePred FourDigitYear := fun _ => inferInstanceAs (Decidable (_ ∧ _))

/-- A document of a valid configuration is read back, but for a quote in the voice name. -/
theorem readSsml_of_valid {config : TtsConfig} {voice text : Bytes}
    (valid : validateTtsConfig config = .ok ())
    (hvoice : normalizeVoiceName config.voice = some voice)
    (plain : (0x27 : UInt8) ∉ config.voice) (htext : (0x3C : UInt8) ∉ text) :
    readSsml (assembleSsml voice config text) =
      some ⟨voice, config.pitch, config.rate, config.volume, text⟩ := by
  obtain ⟨-, ⟨_, hrate⟩, ⟨_, hvolume⟩, ⟨_, hpitch⟩⟩ := validateTtsConfig_ok valid
  have hunit : ∀ c ∈ lit "%", c ≠ 0x27 ∧ c ≠ 0x3C := by decide +kernel
  have hq : (0x27 : UInt8) ∉ voice := by
    rwa [mem_normalizeVoiceName hvoice (by decide)]
  exact readSsml_assembleSsml hq (prosody_plain hpitch (by decide +kernel)).1
    (prosody_plain hrate hunit).1 (prosody_plain hvolume hunit).1 htext

/-- **A server decodes the URL** of every upgrade request. -/
theorem SynthesisSession.MakesUrl.readQuery {jsonParse : Bytes → JsonParse} {t : SessionTrace}
    {metadata : ConnectionMetadata} {url : Bytes}
    (h : (stackSession jsonParse).MakesUrl defaultEdgeServiceConfig t metadata url)
    (ids : ∀ metadata, ⟨.createForRequest, metadata⟩ ∈ t → IsId metadata.connectionId) :
    ∃ params, EdgeTts.readQuery url = some params ∧ UpgradeParams params := by
  obtain ⟨provider, now, token, hconfig, -, htoken, hurl⟩ := h.url
  have hid := ids metadata h.ids
  have histoken : IsToken token := by
    cases htoken
    exact isToken_sha256HexUpper _
  have hparams := @SynthesisSession.readQuery_url (stackSession jsonParse) provider metadata token _
    readQuery_default hid histoken (by rw [hconfig]; decide)
  rw [hconfig] at hparams
  exact ⟨_, hurl ▸ hparams, metadata.connectionId, token, hid, histoken, rfl⟩

/-- **A server decodes what the talk is about.** -/
theorem SynthesisSession.About.read {jsonParse : Bytes → JsonParse} {config : TtsConfig}
    {t : SessionTrace} {text : Bytes} {talk : Talk}
    (h : (stackSession jsonParse).About config defaultEdgeServiceConfig t text talk)
    (valid : validateTtsConfig config = .ok ()) (plain : (0x27 : UInt8) ∉ config.voice)
    (htext : (0x3C : UInt8) ∉ text)
    (years : ∀ now, ⟨.now, now⟩ ∈ t → FourDigitYear now)
    (ids : ∀ metadata, ⟨.createForRequest, metadata⟩ ∈ t →
      IsId metadata.connectionId ∧ IsId metadata.requestId) :
    ∃ request, talk.read = some request ∧ request.Asks config text := by
  obtain ⟨metadata, hup, ⟨now₁, hnow₁, hcfg⟩, now₂, hnow₂, hssml⟩ := h.connection
  obtain ⟨-, hrequestId⟩ := ids metadata hup.ids
  obtain ⟨params, hparams, hupgrade⟩ := hup.readQuery fun metadata hmeta => (ids metadata hmeta).1
  obtain ⟨frame, hframe, hparse⟩ := parse_buildSpeechConfigFrame config metadata
    (years now₁ hnow₁).1 (years now₁ hnow₁).2
  obtain rfl := Except.ok.inj (hframe.symm.trans hcfg)
  obtain ⟨voice, frame', hvoice, hframe', hparse'⟩ := parse_buildSsmlFrame valid
    (fun c hc => isHexDigit_of_mem_kLower (hrequestId.2 c hc)) (years now₂ hnow₂).1
    (years now₂ hnow₂).2 text
  obtain rfl := Outcome.ok.inj (hframe'.symm.trans hssml)
  exact ⟨_, Talk.read_eq hparams hparse rfl hparse' rfl
    (readSsml_of_valid valid hvoice plain htext),
    ⟨hupgrade, ⟨metadata.requestId, hrequestId, rfl⟩, rfl, hvoice, rfl, rfl, rfl, rfl⟩⟩

/-- **The chunks of a text** are free of markup and within the limit, and say the text. -/
theorem TextChunker.chunk_texts {chunker : TextChunker} {input : Bytes} {texts : List Bytes}
    (escaped : chunker.opts.sizeAfterXmlEscape = true) (limit : 5 ≤ chunker.opts.maxChunkSize)
    (h : chunker.chunk input = .ok texts) :
    ∃ norm, TextNormalizer.normalize input = .ok norm ∧ spoken texts = content norm ∧
      ∀ text ∈ texts, (0x3C : UInt8) ∉ text ∧ text.length ≤ chunker.opts.maxChunkSize := by
  by_cases hvalid : Utf8.Valid input
  · obtain ⟨hnorm, hnormValid⟩ := TextNormalizer.normalize_of_valid hvalid
    have hfits := (chunker.whole_workText hnormValid).fits limit
    obtain ⟨-, hall⟩ := splitByLimit_fits chunker.opts.preferSentenceBoundary
      chunker.opts.preferWordBoundary chunker.maxChunkSize_pos hfits
    rw [chunker.chunk_of_valid hvalid] at h
    obtain rfl := Except.ok.inj h
    refine ⟨normalizeLoop input, hnorm, chunker.spoken_pieces hfits, fun text htext => ?_⟩
    obtain ⟨piece, hpiece, rfl⟩ := List.mem_map.mp htext
    obtain ⟨raw, -, hraw⟩ := chunker.escaped_finish (hall piece hpiece).2.2.2.whole
    refine ⟨by rw [hraw]; exact lt_not_mem_xmlEscape raw, ?_⟩
    rw [finish, if_pos escaped]
    exact (hall piece hpiece).2.2.1
  · rw [TextChunker.chunk, TextNormalizer.normalize_of_not_valid hvalid] at h
    cases h

/-- A server decodes every upgrade request, and has refused one before each connection at most. -/
def Upgrades (talks : List Talk) : Prop :=
  ∀ talk ∈ talks, talk.refused.length ≤ 1 ∧
    ∀ url ∈ talk.url :: talk.refused, ∃ params, readQuery url = some params ∧ UpgradeParams params

/-- What a server decodes of the talks: the configuration on each of them, and texts within the
limit, which say together what the normalized text says. -/
def Utters (config : TtsConfig) (text : Bytes) (talks : List Talk) : Prop :=
  ∃ norm requests, TextNormalizer.normalize text = .ok norm ∧
    List.Forall₂ (fun talk request => talk.read = some request) talks requests ∧
    (∀ request ∈ requests, request.Asks config request.fields.content ∧
      request.fields.content.length ≤ 4096) ∧
    spoken (requests.map fun request => request.fields.content) = content norm

/-- **A server decodes the upgrade requests** of a session. -/
theorem Synthesis.upgrades {jsonParse : Bytes → JsonParse} {headers : List (Bytes × Bytes)}
    {s : SpeechSynthesizer} {u : StackTrace} {texts texts' : List Bytes}
    {sessionTrace : SessionTrace} {chunks : List TtsChunk} {talks : List Talk}
    (hs : Synthesis (stackSynthesizer jsonParse headers) s u texts sessionTrace chunks)
    (about : List.Forall₂ ((stackSession jsonParse).About s.config defaultEdgeServiceConfig
      sessionTrace) texts' talks) (few : ∀ talk ∈ talks, talk.refused.length ≤ 1) :
    Upgrades talks := by
  have hids := fun metadata hmeta => (hs.ids metadata hmeta).1
  induction about with
  | nil => exact fun talk htalk => absurd htalk List.not_mem_nil
  | cons first _ ih =>
      rw [List.forall_mem_cons] at few
      obtain ⟨metadata, hup, -⟩ := first.connection
      refine List.forall_mem_cons.mpr ⟨⟨few.1,
        List.forall_mem_cons.mpr ⟨hup.readQuery hids, fun url hurl => ?_⟩⟩, ih few.2⟩
      obtain ⟨metadata, hup⟩ := first.refused url hurl
      exact hup.readQuery hids

/-- **A server decodes each talk** of a session to the text that it is about. -/
theorem Synthesis.reads {jsonParse : Bytes → JsonParse} {headers : List (Bytes × Bytes)}
    {s : SpeechSynthesizer} {u : StackTrace} {texts texts' : List Bytes}
    {sessionTrace : SessionTrace} {chunks : List TtsChunk} {talks : List Talk}
    (hs : Synthesis (stackSynthesizer jsonParse headers) s u texts sessionTrace chunks)
    (about : List.Forall₂ ((stackSession jsonParse).About s.config defaultEdgeServiceConfig
      sessionTrace) texts' talks) (plain : (0x27 : UInt8) ∉ s.config.voice)
    (years : ∀ now, ⟨.now, now⟩ ∈ u → FourDigitYear now)
    (bounded : ∀ text ∈ texts', (0x3C : UInt8) ∉ text ∧ text.length ≤ 4096)
    (valid : texts' ≠ [] → validateTtsConfig s.config = .ok ()) :
    ∃ requests, List.Forall₂ (fun talk request => talk.read = some request) talks requests ∧
      (∀ request ∈ requests, request.Asks s.config request.fields.content ∧
        request.fields.content.length ≤ 4096) ∧
      requests.map (fun request => request.fields.content) = texts' := by
  induction about with
  | nil => exact ⟨[], .nil, fun _ hmem => absurd hmem List.not_mem_nil, rfl⟩
  | @cons text talk texts talks habout _ ih =>
      have hvalid := valid (List.cons_ne_nil _ _)
      rw [List.forall_mem_cons] at bounded
      obtain ⟨⟨hlt, hlen⟩, hbounded⟩ := bounded
      obtain ⟨request, hread, hasks⟩ := habout.read hvalid plain hlt
        (fun now hnow => years now (hs.clock now hnow)) hs.ids
      obtain ⟨requests, hreads, hasksAll, hcontents⟩ := ih hbounded fun _ => hvalid
      refine ⟨request :: requests, .cons hread hreads,
        List.forall_mem_cons.mpr ⟨?_, hasksAll⟩, ?_⟩
      · rw [hasks.content]
        exact ⟨hasks, hlen⟩
      · rw [List.map_cons, hasks.content, hcontents]

/-- **A server decodes the text** of the talks that a session has held for its chunks. -/
theorem Synthesis.decoded {jsonParse : Bytes → JsonParse} {headers : List (Bytes × Bytes)}
    {s : SpeechSynthesizer} {u : StackTrace} {texts : List Bytes} {sessionTrace : SessionTrace}
    {chunks : List TtsChunk} {talks : List Talk}
    (hs : Synthesis (stackSynthesizer jsonParse headers) s u texts sessionTrace chunks)
    (about : List.Forall₂ ((stackSession jsonParse).About s.config defaultEdgeServiceConfig
      sessionTrace) texts talks) (plain : (0x27 : UInt8) ∉ s.config.voice)
    (years : ∀ now, ⟨.now, now⟩ ∈ u → FourDigitYear now) :
    Utters s.config s.text talks := by
  obtain ⟨norm, hnorm, hspoken, htexts⟩ :=
    TextChunker.chunk_texts (by decide) (by decide) hs.chunked
  obtain ⟨requests, hreads, hasks, hcontents⟩ := hs.reads about plain years htexts hs.valid
  exact ⟨norm, requests, hnorm, hreads, hasks, by rw [hcontents, hspoken]⟩

/-- **What the service is asked to speak is the text.**  A call that succeeds has opened one
connection for each chunk, one after the other, each after one refused upgrade request at most,
sent two frames on it and nothing else; each connection is decoded to the configuration of the
call and a text within the limit; and these texts say what the normalized text of the object
says. -/
theorem call_spoken {jsonParse : Bytes → JsonParse} {fuel : Nat} {s s' : SpeechSynthesizer}
    {c : Call} {t : StackTrace} {returned : Returned} (consumes : c.Consumes)
    (run : (production jsonParse fuel (s.call c)).Runs t (some (s', returned)))
    (good : returned.Succeeded) (plain : (0x27 : UInt8) ∉ s.config.voice)
    (years : ∀ now, ⟨.now, now⟩ ∈ t → FourDigitYear now) :
    ∃ talks, stackWire t = talks.flatMap Talk.wire ∧ Upgrades talks ∧
      Utters s.config s.text talks := by
  obtain ⟨headers, texts, sessionTrace, chunks, hs⟩ := production_synthesis consumes run good
  obtain ⟨talks, habout, hwire, -, hturns, -⟩ := hs.run.talks
  exact ⟨talks, by rw [hs.wire_eq, hwire],
    hs.upgrades habout fun talk htalk => (hturns talk htalk).1, hs.decoded habout plain years⟩

/-- A text with an ampersand, on a machine where every command succeeds. -/
theorem call_spoken_sample :
    let s : SpeechSynthesizer := { text := lit "Tom & Ann", config := .defaults }
    let run := (production sampleSession.jsonParse 3 (s.call .synthesize)).runIn sampleMachine
      [audioMessage]
    ∃ talks, stackWire run.trace = talks.flatMap Talk.wire ∧ Upgrades talks ∧
      Utters s.config s.text talks := by
  intro s run
  have hrun : (production sampleSession.jsonParse 3 (s.call .synthesize)).Runs run.trace
      run.result := Prog.runs_runIn _ _ _
  have hany : run.result.any (fun r => decide r.2.Succeeded) = true := by decide +kernel
  obtain ⟨⟨s', returned⟩, hresult, hgood⟩ := (Option.any_eq_true _ _).mp hany
  refine call_spoken (show Call.synthesize.Consumes by trivial) (hresult ▸ hrun)
    (of_decide_eq_true hgood)
    (by decide +kernel) fun now hnow => ?_
  rw [sampleMachine_now hnow]
  decide +kernel

end EdgeTts
