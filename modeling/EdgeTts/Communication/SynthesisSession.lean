import EdgeTts.Lib.Interaction
import EdgeTts.Communication.EdgeProtocolIncoming
import EdgeTts.Communication.EdgeTokenProvider

/-!
# `communication/SynthesisSession.cpp` and `RetryPolicy.cpp`

The session is a program over the commands that its collaborators answer: the
cancellation token, the metadata factory, the clocks and the web socket.  An `int64`
addition is a command as well: its answer is the sum when that fits, and any value
when it does not, since the source's behaviour is then undefined.

`fuel` bounds the turns of the receive loop; the result is `none` while a run is
still inside that loop.
-/
namespace EdgeTts

open Interaction (Prog)
open Interaction.Prog (perform)

inductive Command where
  | isCancelled
  | createForRequest
  | now
  | connect (url : Bytes)
  | sendText (payload : Bytes)
  | receive
  | close
  | add (a b : Int64)

abbrev Reply : Command → Type
  | .isCancelled => Bool
  | .createForRequest => ConnectionMetadata
  | .now => TimePoint
  | .connect _ => Result Unit
  | .sendText _ => Result Unit
  | .receive => Result WebSocketMessage
  | .close => Result Unit
  | .add a b => Sum64 a b

/-! The calls, as the source writes them. -/

/-- `cancel_token.is_cancelled()`. -/
abbrev cancelTokenIsCancelled : Prog Command Reply Bool := perform Command.isCancelled

/-- `metadata_factory.create_for_request()`. -/
abbrev metadataFactoryCreateForRequest : Prog Command Reply ConnectionMetadata :=
  perform Command.createForRequest

/-- `clock.now()`, of any of the clocks. -/
abbrev clockNow : Prog Command Reply TimePoint := perform Command.now

/-- `websocket.connect(url)`. -/
abbrev websocketConnect (url : Bytes) : Prog Command Reply (Result Unit) :=
  perform (Command.connect url)

/-- `websocket.send_text(payload)`. -/
abbrev websocketSendText (payload : Bytes) : Prog Command Reply (Result Unit) :=
  perform (Command.sendText payload)

/-- `websocket.receive()`. -/
abbrev websocketReceive : Prog Command Reply (Result WebSocketMessage) := perform Command.receive

/-- `websocket.close()`. -/
abbrev websocketClose : Prog Command Reply (Result Unit) := perform Command.close

/-- `a + b`. -/
abbrev addInt64 (a b : Int64) : Prog Command Reply (Sum64 a b) := perform (Command.add a b)

/-- `communication::RetryPolicy`. -/
structure RetryPolicy where
  maxRetries : Int := 1
  deriving DecidableEq, Repr

def RetryPolicy.shouldRetry (policy : RetryPolicy) (error : Error) (attempt : Int) : Bool :=
  error.code == .drmError && attempt < policy.maxRetries

/-- The session's own data, and the two library functions it rests on. -/
structure SynthesisSession where
  config : EdgeServiceConfig
  retryPolicy : RetryPolicy := {}
  jsonParse : Bytes → JsonParse
  sha256HexUpper : Bytes → Bytes

def cancelledError : Error := ⟨.cancelled, lit "synthesis was cancelled", []⟩

def noAudioError : Error :=
  ⟨.serviceError,
    lit "No audio was received. Please verify that your parameters are correct.", []⟩

/-- The variables of `run_one_chunk`: `out_boundary_end_ticks`, `out_chunks` and
`audio_received`. -/
structure ChunkState where
  outBoundaryEndTicks : Int64 := 0
  outChunks : List TtsChunk
  audioReceived : Bool := false

namespace ChunkState

/-- The case `audio`. -/
def pushAudio (st : ChunkState) (chunk : TtsChunk) : ChunkState :=
  { st with audioReceived := true, outChunks := st.outChunks ++ [chunk] }

/-- The case `boundary`, with the results of its two additions. -/
def pushBoundary (st : ChunkState) (bc : BoundaryChunk) (rawEnd offset : Int64) : ChunkState :=
  { st with
    outBoundaryEndTicks := if rawEnd > st.outBoundaryEndTicks then rawEnd
      else st.outBoundaryEndTicks
    outChunks := st.outChunks ++ [.boundary { bc with offsetTicks := offset }] }

end ChunkState

/-- The loop over the parsed messages; the flag is `done`. -/
def dispatch (offsetCompensation : Int64) :
    ChunkState → List IncomingMessage → Prog Command Reply (Outcome (ChunkState × Bool))
  | st, [] => return .ok (st, false)
  | st, ⟨.audio, some chunk⟩ :: msgs => dispatch offsetCompensation (st.pushAudio chunk) msgs
  -- the accesses the parser never lets happen
  | _, ⟨.audio, none⟩ :: _ => return .escape .emptyOptional
  | st, ⟨.boundary, some (.boundary bc)⟩ :: msgs => do
      let rawEnd ← addInt64 bc.offsetTicks bc.durationTicks
      let offset ← addInt64 bc.offsetTicks offsetCompensation
      dispatch offsetCompensation (st.pushBoundary bc rawEnd.val offset.val) msgs
  | _, ⟨.boundary, some (.audio _)⟩ :: _ => return .escape .badVariantAccess
  | _, ⟨.boundary, none⟩ :: _ => return .escape .emptyOptional
  | st, ⟨.turnEnd, _⟩ :: _ => return .ok (st, true)
  | st, ⟨.ignored, _⟩ :: msgs => dispatch offsetCompensation st msgs

namespace SynthesisSession
variable (session : SynthesisSession)

/-- One turn of the receive loop. -/
def receiveTurn (offsetCompensation : Int64) (st : ChunkState) :
    Prog Command Reply (ChunkState ⊕ Outcome ChunkState) := do
  -- checked before each message, not only before each chunk
  if (← cancelTokenIsCancelled) then return .inr (.fail cancelledError)
  else
    match ← websocketReceive with
    | .error e => return .inr (.fail e)
    | .ok message =>
        match parseIncoming session.jsonParse message with
        | .fail e => return .inr (.fail e)
        | .escape x => return .inr (.escape x)
        | .ok parsed =>
            match ← dispatch offsetCompensation st parsed with
            | .ok (st, false) => return .inl st
            | .ok (st, true) => return .inr (.ok st)
            | .fail e => return .inr (.fail e)
            | .escape x => return .inr (.escape x)

/-- The end of `run_one_chunk`, after its receive loop: `out_boundary_end_ticks` and
`out_chunks`. -/
def checkAudio : Outcome ChunkState → Outcome (Int64 × List TtsChunk)
  | .ok st =>
      if !st.audioReceived then .fail noAudioError
      else .ok (st.outBoundaryEndTicks, st.outChunks)
  | .fail e => .fail e
  | .escape x => .escape x

/-- `run_one_chunk`; the clock is read for each frame. -/
def runOneChunk (fuel : Nat) (ttsConfig : TtsConfig) (text : Bytes)
    (metadata : ConnectionMetadata) (offsetCompensation : Int64) (outChunks : List TtsChunk) :
    Prog Command Reply (Option (Outcome (Int64 × List TtsChunk))) := do
  let now ← clockNow
  match buildSpeechConfigFrame ttsConfig metadata now with
  | .error e => return some (.fail e)
  | .ok speechCfg =>
      match ← websocketSendText speechCfg with
      | .error e => return some (.fail e)
      | .ok _ =>
          let now ← clockNow
          match buildSsmlFrame ttsConfig text metadata now with
          | .fail e => return some (.fail e)
          | .escape x => return some (.escape x)
          | .ok ssmlFrame =>
              match ← websocketSendText ssmlFrame with
              | .error e => return some (.fail e)
              | .ok _ =>
                  let st ← Prog.loop (session.receiveTurn offsetCompensation) fuel { outChunks }
                  return st.map checkAudio

/-- The clock skew correction before a retry. -/
def correctSkew (provider : EdgeTokenProvider) (error : Error) :
    Prog Command Reply EdgeTokenProvider :=
  if error.hasContext then
    match parseHttpDate error.context with
    | some serverTs => do
        let now ← clockNow
        return provider.adjustClockSkew
          (serverTs - (secondsSinceEpoch now + provider.clockSkewSeconds))
    | none => return provider
  else return provider

/-- The URL of one attempt. -/
def url (provider : EdgeTokenProvider) (metadata : ConnectionMetadata) (gec : Bytes) : Bytes :=
  session.config.websocketEndpoint ++ lit "&ConnectionId=" ++ metadata.connectionId ++
    lit "&Sec-MS-GEC=" ++ gec ++ lit "&Sec-MS-GEC-Version=" ++ provider.secMsGecVersion

/-- The retry loop of `synthesize` for one chunk, from a given attempt on.  The
socket is closed whether `run_one_chunk` returns a value or an error, and left as it
is by an exception. -/
def runChunk (fuel : Nat) (ttsConfig : TtsConfig) (text : Bytes) (offsetCompensation : Int64)
    (allChunks : List TtsChunk) (provider : EdgeTokenProvider) (attempt : Int) :
    Prog Command Reply (Option (Outcome (Int64 × List TtsChunk × EdgeTokenProvider))) := do
  let metadata ← metadataFactoryCreateForRequest
  let now ← clockNow
  match provider.secMsGec session.sha256HexUpper now with
  | .error e => return some (.fail e)
  | .ok gec =>
      match ← websocketConnect (session.url provider metadata gec) with
      | .error e =>
          if h : session.retryPolicy.shouldRetry e attempt then
            let provider ← correctSkew provider e
            runChunk fuel ttsConfig text offsetCompensation allChunks provider (attempt + 1)
          else return some (.fail e)
      | .ok _ =>
          match ← session.runOneChunk fuel ttsConfig text metadata offsetCompensation
              allChunks with
          -- still inside the receive loop
          | none => return none
          | some (.escape x) => return some (.escape x)
          | some (.fail e) =>
              let _ ← websocketClose
              return some (.fail e)
          | some (.ok (chunkBoundaryEnd, chunks)) =>
              let _ ← websocketClose
              return some (.ok (chunkBoundaryEnd, chunks, provider))
  termination_by (session.retryPolicy.maxRetries - attempt).toNat
  decreasing_by
    simp only [RetryPolicy.shouldRetry, Bool.and_eq_true, decide_eq_true_eq] at h
    omega

/-- The chunk loop of `synthesize`. -/
def runChunks (fuel : Nat) (ttsConfig : TtsConfig) :
    List Bytes → Int64 → List TtsChunk → EdgeTokenProvider →
      Prog Command Reply (Option (Outcome (List TtsChunk)))
  | [], _, allChunks, _ => return some (.ok allChunks)
  | text :: textChunks, cumulativeSubtitleTicks, allChunks, provider => do
      if (← cancelTokenIsCancelled) then return some (.fail cancelledError)
      else
        match ← session.runChunk fuel ttsConfig text cumulativeSubtitleTicks allChunks
            provider 0 with
        | none => return none
        | some (.fail e) => return some (.fail e)
        | some (.escape x) => return some (.escape x)
        | some (.ok (chunkBoundaryEnd, allChunks, provider)) =>
            let cumulativeSubtitleTicks ← addInt64 cumulativeSubtitleTicks chunkBoundaryEnd
            runChunks fuel ttsConfig textChunks cumulativeSubtitleTicks.val allChunks provider

/-- `SynthesisSession::synthesize`. -/
def synthesize (fuel : Nat) (ttsConfig : TtsConfig) (textChunks : List Bytes)
    (provider : EdgeTokenProvider) : Prog Command Reply (Option (Outcome (List TtsChunk))) :=
  session.runChunks fuel ttsConfig textChunks 0 [] provider

end SynthesisSession
end EdgeTts
