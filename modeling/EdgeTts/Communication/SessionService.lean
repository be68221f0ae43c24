import EdgeTts.Communication.Conversations

/-!
# A session with a service that answers

What a session may hear is not restricted by its code: every sequence of
conversations that are complete, one for each text, is heard in some run, and in that
run the session returns a value (`synthesize_served`).  A message on which the parser
throws ends the session (`synthesize_thrown`), and so does a connect that is refused for
good (`synthesize_refused`).
-/
namespace EdgeTts

open Interaction (Prog)
open Interaction.Prog (runs_bind runs_perform_bind runs_loop_succ)

theorem dispatch_boundaries_served (comp : Int64) (st : ChunkState) (bcs : List BoundaryChunk) :
    ∃ t st', (dispatch comp st (bcs.map fun bc => ⟨.boundary, some (.boundary bc)⟩)).Runs t
      (.ok (st', false)) := by
  induction bcs generalizing st with
  | nil => exact ⟨[], st, rfl, rfl⟩
  | cons bc bcs ih =>
      -- an addition may always be answered, by the wrapped sum where it overflows
      let rawEnd := Sum64.wrapping bc.offsetTicks bc.durationTicks
      let offset := Sum64.wrapping bc.offsetTicks comp
      obtain ⟨t, st', h⟩ := ih (st.pushBoundary bc rawEnd.val offset.val)
      exact ⟨_, st', rawEnd, _, rfl, offset, t, rfl, h⟩

theorem dispatch_served (comp : Int64) (st : ChunkState) {msgs : List IncomingMessage}
    (shape : Shape msgs) (notEnd : msgs ≠ turnEndMessages) :
    ∃ t st', (dispatch comp st msgs).Runs t (.ok (st', false)) := by
  cases shape with
  | turnEnd => exact absurd rfl notEnd
  | ignored => exact ⟨[], st, rfl, rfl⟩
  | audio hdata => exact ⟨[], _, rfl, rfl⟩
  | boundaries hbcs => exact dispatch_boundaries_served comp st _

namespace SynthesisSession
variable {session : SynthesisSession}

theorem receiveTurn_turn {comp : Int64} {st st' : ChunkState} {message : WebSocketMessage}
    {msgs : List IncomingMessage} {t : SessionTrace}
    (parsed : parseIncoming session.jsonParse message = .ok msgs)
    (run : (dispatch comp st msgs).Runs t (.ok (st', false))) :
    (session.receiveTurn comp st).Runs (⟨.isCancelled, false⟩ :: ⟨.receive, .ok message⟩ :: t)
      (.inl st') := by
  rw [receiveTurn, runs_perform_bind]
  refine ⟨false, _, rfl, ?_⟩
  rw [if_neg Bool.false_ne_true, runs_perform_bind]
  refine ⟨.ok message, t, rfl, ?_⟩
  simp only [parsed]
  exact runs_bind.mpr ⟨t, [], _, (List.append_nil t).symm, run, rfl, rfl⟩

theorem receiveTurn_turnEnd {comp : Int64} {st : ChunkState} {message : WebSocketMessage}
    (parsed : parseIncoming session.jsonParse message = .ok turnEndMessages) :
    (session.receiveTurn comp st).Runs [⟨.isCancelled, false⟩, ⟨.receive, .ok message⟩]
      (.inr (.ok st)) := by
  rw [receiveTurn, runs_perform_bind]
  refine ⟨false, _, rfl, ?_⟩
  rw [if_neg Bool.false_ne_true, runs_perform_bind]
  refine ⟨.ok message, [], rfl, ?_⟩
  simp only [parsed]
  exact ⟨rfl, rfl⟩

theorem receiveTurn_escape {comp : Int64} {st : ChunkState} {message : WebSocketMessage}
    {x : Escape} (parsed : parseIncoming session.jsonParse message = .escape x) :
    (session.receiveTurn comp st).Runs [⟨.isCancelled, false⟩, ⟨.receive, .ok message⟩]
      (.inr (.escape x)) := by
  rw [receiveTurn, runs_perform_bind]
  refine ⟨false, _, rfl, ?_⟩
  rw [if_neg Bool.false_ne_true, runs_perform_bind]
  refine ⟨.ok message, [], rfl, ?_⟩
  simp only [parsed]
  exact ⟨rfl, rfl⟩

/-- The loop hears a whole conversation. -/
theorem receiveLoop_served (comp : Int64) {messages : List WebSocketMessage}
    (turn : session.WholeTurn messages) {fuel : Nat} (hfuel : messages.length ≤ fuel)
    (st : ChunkState) :
    ∃ t st', (Prog.loop (session.receiveTurn comp) fuel st).Runs t (some (.ok st')) ∧
      received t = messages := by
  obtain ⟨init, last, rfl, hlast, hinit⟩ := turn
  induction init generalizing fuel st with
  | nil =>
      obtain ⟨fuel, rfl⟩ := Nat.exists_eq_add_of_le' hfuel
      exact ⟨_, st, runs_loop_succ.mpr (.inr ⟨_, receiveTurn_turnEnd hlast, rfl⟩), rfl⟩
  | cons message init ih =>
      obtain ⟨⟨msgs, hparsed, hne⟩, hinit⟩ := List.forall_mem_cons.mp hinit
      obtain ⟨t₁, st₁, hrun⟩ := dispatch_served comp st (parseIncoming_shape hparsed) hne
      -- a message without a turn end is delivered whole
      have hdelivered : Delivered comp st msgs t₁ st₁ := by
        rcases dispatch_runs (parseIncoming_shape hparsed) hrun with ⟨-, -, h⟩ | ⟨-, _, h, hd⟩
        · cases h
        · cases h
          exact hd
      cases fuel with
      | zero => simp at hfuel
      | succ fuel =>
          obtain ⟨t₂, st₂, hloop, hrec⟩ := ih st₁ (by simpa using hfuel) hinit
          refine ⟨_, st₂, runs_loop_succ.mpr (.inl
            ⟨_, t₂, st₁, rfl, receiveTurn_turn hparsed hrun, hloop⟩), ?_⟩
          simp [received_cons_of_ne, hdelivered.received, hrec]

/-- The two frames of a chunk are built and sent. -/
theorem runOneChunk_served {ttsConfig : TtsConfig} (valid : validateTtsConfig ttsConfig = .ok ())
    {fuel : Nat} {comp : Int64} {chunks : List TtsChunk} {t : SessionTrace}
    {r : Option (Outcome ChunkState)}
    (loop : (Prog.loop (session.receiveTurn comp) fuel { outChunks := chunks }).Runs t r)
    (text : Bytes) (metadata : ConnectionMetadata) :
    ∃ t', (session.runOneChunk fuel ttsConfig text metadata comp chunks).Runs t'
      (r.map checkAudio) ∧ received t' = received t := by
  obtain ⟨frame, hcfg⟩ := buildSpeechConfigFrame_ok ttsConfig metadata 0
  obtain ⟨frame', hssml⟩ := buildSsmlFrame_ok valid text metadata 0
  refine ⟨⟨.now, 0⟩ :: ⟨.sendText frame, .ok ()⟩ :: ⟨.now, 0⟩ :: ⟨.sendText frame', .ok ()⟩ :: t,
    ?_, by simp [received_cons_of_ne]⟩
  rw [runOneChunk, runs_perform_bind]
  refine ⟨0, _, rfl, ?_⟩
  simp only [hcfg, runs_perform_bind]
  refine ⟨.ok (), _, rfl, ?_⟩
  simp only [runs_perform_bind]
  refine ⟨0, _, rfl, ?_⟩
  simp only [hssml, runs_perform_bind]
  exact ⟨.ok (), t, rfl, runs_bind.mpr ⟨t, [], r, (List.append_nil t).symm, loop, rfl, rfl⟩⟩

/-- The first connect of a chunk succeeds. -/
theorem runChunk_connected {ttsConfig : TtsConfig} {fuel : Nat} {comp : Int64}
    {chunks : List TtsChunk} {text : Bytes} {t : SessionTrace}
    {r : Option (Outcome (Int64 × List TtsChunk))} (metadata : ConnectionMetadata)
    (run : (session.runOneChunk fuel ttsConfig text metadata comp chunks).Runs t r)
    (provider : EdgeTokenProvider) {t₂ : SessionTrace}
    {r₂ : Option (Outcome (Int64 × List TtsChunk × EdgeTokenProvider))}
    (closing : Closing provider r t₂ r₂) :
    ∃ pre url, (session.runChunk fuel ttsConfig text comp chunks provider 0).Runs
      (pre ++ ⟨.connect url, .ok ()⟩ :: (t ++ t₂)) r₂ ∧ ∀ ev ∈ pre, opens ev = false := by
  obtain ⟨token, hgec⟩ : ∃ token, provider.secMsGec session.sha256HexUpper 0 = .ok token :=
    ⟨_, rfl⟩
  refine ⟨[⟨.createForRequest, metadata⟩, ⟨.now, 0⟩], session.url provider metadata token, ?_,
    by simp [opens]⟩
  rw [runChunk, runs_perform_bind]
  refine ⟨metadata, _, rfl, ?_⟩
  rw [runs_perform_bind]
  refine ⟨0, _, rfl, ?_⟩
  simp only [hgec, runs_perform_bind]
  refine ⟨.ok (), _, rfl, runs_bind.mpr ⟨t, t₂, r, rfl, run, ?_⟩⟩
  cases closing with
  | running => exact ⟨rfl, rfl⟩
  | escaped x => exact ⟨rfl, rfl⟩
  | failed e closed => exact ⟨closed, [], rfl, rfl, rfl⟩
  | done b cs closed => exact ⟨closed, [], rfl, rfl, rfl⟩

theorem runChunks_served {ttsConfig : TtsConfig} (valid : validateTtsConfig ttsConfig = .ok ())
    {fuel : Nat} {texts : List Bytes} {convs : List (List WebSocketMessage)}
    (hlen : convs.length = texts.length)
    (hconvs : ∀ messages ∈ convs, session.WholeTurn messages ∧
      (session.contents messages).any isAudio = true ∧ messages.length ≤ fuel)
    (metadata : ConnectionMetadata) (cumulative : Int64) (allChunks : List TtsChunk)
    (provider : EdgeTokenProvider) :
    ∃ t out, (session.runChunks fuel ttsConfig texts cumulative allChunks provider).Runs t
      (some (.ok out)) ∧ conversations t = convs := by
  induction texts generalizing convs cumulative allChunks with
  | nil =>
      obtain rfl := List.length_eq_zero_iff.mp hlen
      exact ⟨[], allChunks, ⟨rfl, rfl⟩, rfl⟩
  | cons text texts ih =>
      cases convs with
      | nil => cases hlen
      | cons messages convs =>
          obtain ⟨⟨hturn, haudio, hfuel⟩, hconvs⟩ := List.forall_mem_cons.mp hconvs
          obtain ⟨t₀, st, hloop, hrec₀⟩ :=
            receiveLoop_served cumulative hturn hfuel { outChunks := allChunks }
          obtain ⟨t₁, hrun, hrec₁⟩ := runOneChunk_served valid hloop text metadata
          -- the conversation has audio, so `checkAudio` lets it pass
          have hst : st.audioReceived = true := by
            rw [(receiveLoop_runs hloop).audioReceived, hrec₀, haudio]
            rfl
          simp only [Option.map_some, checkAudio, hst, Bool.not_true, Bool.false_eq_true,
            if_false] at hrun
          obtain ⟨pre, url, hchunk, hpre⟩ := runChunk_connected metadata hrun provider
            (.done st.outBoundaryEndTicks st.outChunks (.ok ()))
          let sum := Sum64.wrapping cumulative st.outBoundaryEndTicks
          obtain ⟨t₂, out, hrest, hconv⟩ := ih (by simpa using hlen) hconvs sum.val st.outChunks
          refine ⟨⟨.isCancelled, false⟩ ::
            (pre ++ ⟨.connect url, .ok ()⟩ :: (t₁ ++ [⟨.close, .ok ()⟩]) ++
              ⟨.add cumulative st.outBoundaryEndTicks, sum⟩ :: t₂), out, ?_, ?_⟩
          · rw [runChunks, runs_perform_bind]
            refine ⟨false, _, rfl, ?_⟩
            rw [if_neg Bool.false_ne_true, runs_bind]
            exact ⟨_, _, _, rfl, hchunk, sum, t₂, rfl, hrest⟩
          · have hclosed := conversations_closed url (runOneChunk_runs hrun).steady (.ok ())
              (⟨.add cumulative st.outBoundaryEndTicks, sum⟩ :: t₂)
            rw [hrec₁, hrec₀] at hclosed
            rw [conversations, if_neg (by simp [opens]), List.append_assoc,
              conversations_append hpre]
            simpa [conversations, opens, hconv] using hclosed

/-- **Every sequence of complete conversations is heard in some run**, one conversation
for each text, and the session returns a value there. -/
theorem synthesize_served {ttsConfig : TtsConfig} (valid : validateTtsConfig ttsConfig = .ok ())
    {fuel : Nat} {texts : List Bytes} {convs : List (List WebSocketMessage)}
    (hlen : convs.length = texts.length)
    (hconvs : ∀ messages ∈ convs, session.WholeTurn messages ∧
      (session.contents messages).any isAudio = true ∧ messages.length ≤ fuel)
    (metadata : ConnectionMetadata) (provider : EdgeTokenProvider) :
    ∃ t out, (session.synthesize fuel ttsConfig texts provider).Runs t (some (.ok out)) ∧
      conversations t = convs :=
  runChunks_served valid hlen hconvs metadata 0 [] provider

/-- **A message on which the parser throws** ends the session where it is. -/
theorem synthesize_thrown {ttsConfig : TtsConfig} (valid : validateTtsConfig ttsConfig = .ok ())
    {message : WebSocketMessage} (thrown : Overflowing session.jsonParse message) (fuel : Nat)
    (text : Bytes) (texts : List Bytes) (metadata : ConnectionMetadata)
    (provider : EdgeTokenProvider) :
    ∃ t x, (session.synthesize (fuel + 1) ttsConfig (text :: texts) provider).Runs t
      (some (.escape x)) ∧ ⟨.receive, .ok message⟩ ∈ t := by
  obtain ⟨x, hx⟩ := (parseIncoming_escape_iff message).mpr thrown
  have hloop : (Prog.loop (session.receiveTurn 0) (fuel + 1) { outChunks := [] }).Runs
      [⟨.isCancelled, false⟩, ⟨.receive, .ok message⟩] (some (.escape x)) :=
    runs_loop_succ.mpr (.inr ⟨_, receiveTurn_escape hx, rfl⟩)
  obtain ⟨t₁, hrun, hrec⟩ := runOneChunk_served valid hloop text metadata
  obtain ⟨pre, url, hchunk, -⟩ := runChunk_connected metadata hrun provider (.escaped x)
  refine ⟨⟨.isCancelled, false⟩ :: (pre ++ ⟨.connect url, .ok ()⟩ :: (t₁ ++ []) ++ []), x, ?_, ?_⟩
  · rw [synthesize, runChunks, runs_perform_bind]
    refine ⟨false, _, rfl, ?_⟩
    rw [if_neg Bool.false_ne_true, runs_bind]
    exact ⟨_, [], _, rfl, hchunk, rfl, rfl⟩
  · have hmem : message ∈ received t₁ := by simp [hrec, received_cons_of_ne]
    simp [mem_received.mp hmem]

/-- A connect that is refused for good ends the session. -/
theorem synthesize_refused {e : Error} (last : session.retryPolicy.shouldRetry e 0 = false)
    (fuel : Nat) (ttsConfig : TtsConfig) (text : Bytes) (texts : List Bytes)
    (metadata : ConnectionMetadata) (provider : EdgeTokenProvider) :
    ∃ url, (session.synthesize fuel ttsConfig (text :: texts) provider).Runs
      [⟨.isCancelled, false⟩, ⟨.createForRequest, metadata⟩, ⟨.now, 0⟩, ⟨.connect url, .error e⟩]
      (some (.fail e)) := by
  obtain ⟨token, hgec⟩ : ∃ token, provider.secMsGec session.sha256HexUpper 0 = .ok token :=
    ⟨_, rfl⟩
  have hchunk : (session.runChunk fuel ttsConfig text 0 [] provider 0).Runs
      [⟨.createForRequest, metadata⟩, ⟨.now, 0⟩,
        ⟨.connect (session.url provider metadata token), .error e⟩] (some (.fail e)) := by
    rw [runChunk, runs_perform_bind]
    refine ⟨metadata, _, rfl, ?_⟩
    rw [runs_perform_bind]
    refine ⟨0, _, rfl, ?_⟩
    simp only [hgec, runs_perform_bind]
    refine ⟨.error e, [], rfl, ?_⟩
    simp only [last, Bool.false_eq_true, dite_false]
    exact ⟨rfl, rfl⟩
  refine ⟨session.url provider metadata token, ?_⟩
  rw [synthesize, runChunks, runs_perform_bind]
  refine ⟨false, _, rfl, ?_⟩
  rw [if_neg Bool.false_ne_true, runs_bind]
  exact ⟨_, [], _, (List.append_nil _).symm, hchunk, rfl, rfl⟩

end SynthesisSession

/-! ## A few messages -/

def textMessage (path : String) (body : Bytes) : WebSocketMessage where
  type := .text
  text := lit "Path:" ++ lit path ++ kSeparator ++ body

/-- One byte of audio. -/
def audioMessage : WebSocketMessage where
  type := .binary
  binary := [0, 37] ++ lit "Path:audio\r\nContent-Type:audio/mpeg" ++ kCrlf ++ [0xFF]

def turnEndMessage : WebSocketMessage := textMessage "turn.end" []

def wordJson : Bytes :=
  lit "\x7b\"Metadata\":[\x7b\"Type\":\"WordBoundary\",\"Data\":\x7b\"Offset\":1000000," ++
    lit "\"Duration\":5000000,\"text\":\x7b\"Text\":\"Hi\"\x7d\x7d\x7d]\x7d"

def hugeJson : Bytes :=
  lit "\x7b\"Metadata\":[\x7b\"Type\":\"WordBoundary\",\"Data\":\x7b\"Offset\":9223372036854775807," ++
    lit "\"Duration\":1,\"text\":\x7b\"Text\":\"Hi\"\x7d\x7d\x7d]\x7d"

/-- The value of such a text. -/
def wordValue (offset duration : Int64) : Json :=
  .object [(lit "Metadata", .array [.object [(lit "Type", .string (lit "WordBoundary")),
    (lit "Data", .object [(lit "Offset", .numberInteger offset),
      (lit "Duration", .numberInteger duration),
      (lit "text", .object [(lit "Text", .string (lit "Hi"))])])]])]

/-- A session with a `json::parse` for these texts and one number that overflows, and
the hash of the token of the Unix epoch. -/
def sampleSession : SynthesisSession where
  config := defaultEdgeServiceConfig
  jsonParse body :=
    if body = wordJson then .value (wordValue 1000000 5000000)
    else if body = hugeJson then .value (wordValue 9223372036854775807 1)
    else if body = lit "1e999" then .outOfRange
    else .parseError (lit "syntax error")
  sha256HexUpper _ := lit "7ECB79D14E3AA576D2D79E6D487A1388156D91E614B1BE11C64226A29BC8DD8C"

def sampleProvider : EdgeTokenProvider where
  config := defaultEdgeServiceConfig

/-- A metadata message that is no JSON a double can hold. -/
def overflowMessage : WebSocketMessage := textMessage "audio.metadata" (lit "1e999")

/-- What the parser makes of these messages, evaluated once. -/
theorem parse_messages :
    parseIncoming sampleSession.jsonParse audioMessage =
      .ok [⟨.audio, some (.audio ⟨[0xFF]⟩)⟩] ∧
    parseIncoming sampleSession.jsonParse turnEndMessage = .ok turnEndMessages ∧
    parseIncoming sampleSession.jsonParse overflowMessage = .escape .jsonOutOfRange ∧
    parseIncoming sampleSession.jsonParse (textMessage "audio.metadata" wordJson) =
      .ok [⟨.boundary, some (.boundary ⟨.wordBoundary, lit "Hi", 1000000, 5000000⟩)⟩] ∧
    parseIncoming sampleSession.jsonParse (textMessage "audio.metadata" hugeJson) =
      .ok [⟨.boundary, some (.boundary ⟨.wordBoundary, lit "Hi", 9223372036854775807, 1⟩)⟩] := by
  decide +kernel

theorem parse_word : parseIncoming sampleSession.jsonParse (textMessage "audio.metadata" wordJson) =
    .ok [⟨.boundary, some (.boundary ⟨.wordBoundary, lit "Hi", 1000000, 5000000⟩)⟩] :=
  parse_messages.2.2.2.1

theorem parse_huge : parseIncoming sampleSession.jsonParse (textMessage "audio.metadata" hugeJson) =
    .ok [⟨.boundary, some (.boundary ⟨.wordBoundary, lit "Hi", 9223372036854775807, 1⟩)⟩] :=
  parse_messages.2.2.2.2

/-- A conversation of audio, one accepted message without a turn end, and the turn end. -/
theorem complete_of_parse {message : WebSocketMessage} {bc : BoundaryChunk}
    (parsed : parseIncoming sampleSession.jsonParse message =
      .ok [⟨.boundary, some (.boundary bc)⟩]) :
    sampleSession.WholeTurn [audioMessage, message, turnEndMessage] ∧
      sampleSession.contents [audioMessage, message, turnEndMessage] =
        [.audio ⟨[0xFF]⟩, .boundary bc] := by
  obtain ⟨audio, turnEnd, -⟩ := parse_messages
  refine ⟨⟨[audioMessage, message], turnEndMessage, rfl, turnEnd, ?_⟩, ?_⟩
  · simp only [List.forall_mem_cons, List.not_mem_nil, false_implies, implies_true, and_true]
    exact ⟨⟨_, audio, by simp [turnEndMessages]⟩,
      ⟨_, parsed, by simp [turnEndMessages]⟩⟩
  · simp [SynthesisSession.accepted_eq audio, SynthesisSession.accepted_eq parsed,
      SynthesisSession.accepted_eq turnEnd, turnEndMessages]

/-- Such a conversation, heard for each of the texts. -/
theorem sample_run {message : WebSocketMessage} {bc : BoundaryChunk}
    (parsed : parseIncoming sampleSession.jsonParse message =
      .ok [⟨.boundary, some (.boundary bc)⟩])
    (texts : List Bytes) :
    ∃ t out, (sampleSession.synthesize 3 .defaults texts sampleProvider).Runs t (some (.ok out)) ∧
      conversations t = List.replicate texts.length [audioMessage, message, turnEndMessage] := by
  obtain ⟨hturn, hcontents⟩ := complete_of_parse parsed
  refine SynthesisSession.synthesize_served validateTtsConfig_defaults List.length_replicate
    (fun messages hmem => ?_) ⟨lit "c0", lit "0f"⟩ sampleProvider
  rw [List.eq_of_mem_replicate hmem, hcontents]
  exact ⟨hturn, rfl, le_rfl⟩

end EdgeTts
