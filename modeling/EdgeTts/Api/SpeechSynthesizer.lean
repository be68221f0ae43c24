import EdgeTts.Core.TtsConfig
import EdgeTts.Serialization.TextChunker
import EdgeTts.Subtitle.SubtitleBuilder

/-!
# `api/SpeechSynthesizer.cpp`

The three entry points are programs over the commands that their environment answers: the
cancellation token, the injected synthesizer, the callbacks of the caller, the additions of
`SubtitleBuilder` and the file writer.  `Used` is the history of one object over any calls on
it, each with the trace of its run and what it returned.
-/
namespace EdgeTts

open Interaction (Prog Trace)
open Interaction.Prog (perform)

inductive ApiCommand where
  | isCancelled
  | cancel
  | synthesizer (config : TtsConfig) (chunks : List Bytes)
  | onAudio (data : Bytes)
  | onBoundary (boundary : BoundaryChunk)
  | onComplete
  | onError (error : Error)
  | add (a b : Int64)
  | writeBinary (path bytes : Bytes)
  | writeTextUtf8 (path text : Bytes)

/-- The injected synthesizer may throw as well. -/
abbrev ApiReply : ApiCommand → Type
  | .isCancelled => Bool
  | .cancel => Unit
  | .synthesizer _ _ => Outcome (List TtsChunk)
  | .onAudio _ => Unit
  | .onBoundary _ => Unit
  | .onComplete => Unit
  | .onError _ => Unit
  | .add a b => Sum64 a b
  | .writeBinary _ _ => Result Unit
  | .writeTextUtf8 _ _ => Result Unit

abbrev ApiTrace := Trace ApiCommand ApiReply

/-- `api::SynthesisOptions`. -/
structure SynthesisOptions where
  proxy : Option Bytes := none

/-- `StreamCallbacks`: which of the callbacks are set. -/
structure StreamCallbacks where
  onAudio : Bool := true
  onBoundary : Bool := true
  onComplete : Bool := true
  onError : Bool := true

structure SpeechSynthesizer where
  text : Bytes
  config : TtsConfig
  options : SynthesisOptions := {}
  called : Bool := false

/-- The error of a repeated call. -/
def calledTwiceError : Error := ⟨.invalidState, lit "synthesize can only be called once", []⟩

/-- The error of a cancelled call. -/
def synthesisCancelledError : Error := ⟨.cancelled, lit "synthesis was cancelled", []⟩

namespace StreamCallbacks

/-- `if (callbacks.on_error) callbacks.on_error(e)`. -/
def reportError (callbacks : StreamCallbacks) (e : Error) : Prog ApiCommand ApiReply Unit :=
  if callbacks.onError then perform (ApiCommand.onError e) else return ()

/-- `if (callbacks.on_complete) callbacks.on_complete()`. -/
def reportComplete (callbacks : StreamCallbacks) : Prog ApiCommand ApiReply Unit :=
  if callbacks.onComplete then perform ApiCommand.onComplete else return ()

/-- One chunk goes to the callback of its kind. -/
def deliver (callbacks : StreamCallbacks) : TtsChunk → Prog ApiCommand ApiReply Unit
  | .audio ac => if callbacks.onAudio then perform (ApiCommand.onAudio ac.data) else return ()
  | .boundary bc =>
      if callbacks.onBoundary then perform (ApiCommand.onBoundary bc) else return ()

/-- The loop of `synthesize_stream` and what follows it. -/
def deliverAll (callbacks : StreamCallbacks) :
    List TtsChunk → Prog ApiCommand ApiReply (Outcome Unit)
  | [] => do
      if (← perform ApiCommand.isCancelled) then
        callbacks.reportError synthesisCancelledError
        return .fail synthesisCancelledError
      else
        callbacks.reportComplete
        return .ok ()
  | chunk :: chunks => do
      if (← perform ApiCommand.isCancelled) then
        callbacks.reportError synthesisCancelledError
        return .fail synthesisCancelledError
      else
        callbacks.deliver chunk
        callbacks.deliverAll chunks

/-- `synthesize_stream`, after the pipeline. -/
def stream (callbacks : StreamCallbacks) :
    Outcome (List TtsChunk) → Prog ApiCommand ApiReply (Outcome Unit)
  | .escape x => return .escape x
  | .fail e => do
      callbacks.reportError e
      return .fail e
  | .ok synthesis => callbacks.deliverAll synthesis

end StreamCallbacks

/-- `SubtitleBuilder::feed`, among the other commands. -/
def feedSubtitles (submaker : SubtitleBuilder) (boundary : BoundaryChunk) :
    Prog ApiCommand ApiReply (Result SubtitleBuilder) :=
  (submaker.feed boundary).mapCommands (fun | .add a b => ApiCommand.add a b)
    (fun | .add _ _ => id)

/-- The loop of `save` over the chunks. -/
def collectChunks (audioBytes : Bytes) (submaker : SubtitleBuilder) :
    List TtsChunk → Prog ApiCommand ApiReply (Result (Bytes × SubtitleBuilder))
  | [] => return .ok (audioBytes, submaker)
  | .audio ac :: chunks => collectChunks (audioBytes ++ ac.data) submaker chunks
  | .boundary bc :: chunks => do
      match ← feedSubtitles submaker bc with
      | .error e => return .error e
      | .ok submaker => collectChunks audioBytes submaker chunks

/-- The two writes of `save`, one after the other. -/
def writeFiles (mediaPath : Bytes) (subtitlesPath : Option Bytes) (audioBytes : Bytes)
    (submaker : SubtitleBuilder) : Prog ApiCommand ApiReply (Result Unit) := do
  match ← perform (ApiCommand.writeBinary mediaPath audioBytes) with
  | .error e => return .error e
  | .ok _ =>
      match subtitlesPath with
      | none => return .ok ()
      | some path =>
          match submaker.toSrt with
          | .error e => return .error e
          | .ok srt => perform (ApiCommand.writeTextUtf8 path srt)

/-- `save`, after the pipeline. -/
def saveFiles (mediaPath : Bytes) (subtitlesPath : Option Bytes) :
    Outcome (List TtsChunk) → Prog ApiCommand ApiReply (Outcome Unit)
  | .escape x => return .escape x
  | .fail e => return .fail e
  | .ok chunks => do
      match ← collectChunks [] {} chunks with
      | .error e => return .fail e
      | .ok (audioBytes, submaker) =>
          let written ← writeFiles mediaPath subtitlesPath audioBytes submaker
          return .ofResult written

/-- `serialization::TextChunker chunker`. -/
def defaultChunker : TextChunker where
  opts := {}
  maxChunkSize_pos := by decide

namespace SpeechSynthesizer
variable (synthesizer : SpeechSynthesizer)

/-- `run_pipeline`. -/
def runPipeline : Prog ApiCommand ApiReply (Outcome (List TtsChunk)) := do
  if (← perform ApiCommand.isCancelled) then return .fail synthesisCancelledError
  else if synthesizer.options.proxy.isSome then
    return .fail ⟨.unsupported, lit "proxy is not supported", []⟩
  else
    match validateTtsConfig synthesizer.config with
    | .error e => return .fail e
    | .ok _ =>
        match defaultChunker.chunk synthesizer.text with
        | .error e => return .fail e
        | .ok textChunks =>
            -- no text, no audio
            if textChunks.isEmpty then return .ok []
            else perform (ApiCommand.synthesizer synthesizer.config textChunks)

/-- The guard and the pipeline with which every entry point starts; `finish` is what it goes
on with. -/
def runOnce {α : Type} (finish : Outcome (List TtsChunk) → Prog ApiCommand ApiReply (Outcome α)) :
    Prog ApiCommand ApiReply (SpeechSynthesizer × Outcome α) :=
  if synthesizer.called then return (synthesizer, .fail calledTwiceError)
  else do
    let synthesizer := { synthesizer with called := true }
    let synthesis ← synthesizer.runPipeline
    let result ← finish synthesis
    return (synthesizer, result)

/-- `synthesize`. -/
def synthesize : Prog ApiCommand ApiReply (SpeechSynthesizer × Outcome (List TtsChunk)) :=
  synthesizer.runOnce fun synthesis => return synthesis

/-- `synthesize_stream`. -/
def synthesizeStream (callbacks : StreamCallbacks) :
    Prog ApiCommand ApiReply (SpeechSynthesizer × Outcome Unit) :=
  synthesizer.runOnce callbacks.stream

/-- `save`. -/
def save (mediaPath : Bytes) (subtitlesPath : Option Bytes) :
    Prog ApiCommand ApiReply (SpeechSynthesizer × Outcome Unit) :=
  synthesizer.runOnce (saveFiles mediaPath subtitlesPath)

end SpeechSynthesizer

/-! ## The history of an object -/

/-- A call on a `SpeechSynthesizer`. -/
inductive Call where
  | synthesize
  | save (mediaPath : Bytes) (subtitlesPath : Option Bytes)
  | synthesizeStream (callbacks : StreamCallbacks)
  | cancel

/-- The calls that use the object up. -/
def Call.Consumes : Call → Prop
  | .cancel => False
  | _ => True

/-- What a call returns. -/
inductive Returned where
  | chunks (result : Outcome (List TtsChunk))
  | done (result : Outcome Unit)
  deriving DecidableEq

/-- The error that a call returns. -/
def Returned.error : Returned → Option Error
  | .chunks (.fail e) => some e
  | .done (.fail e) => some e
  | _ => none

/-- One call. -/
def SpeechSynthesizer.call (synthesizer : SpeechSynthesizer) :
    Call → Prog ApiCommand ApiReply (SpeechSynthesizer × Returned)
  | .synthesize => do
      let (synthesizer, result) ← synthesizer.synthesize
      return (synthesizer, .chunks result)
  | .save mediaPath subtitlesPath => do
      let (synthesizer, result) ← synthesizer.save mediaPath subtitlesPath
      return (synthesizer, .done result)
  | .synthesizeStream callbacks => do
      let (synthesizer, result) ← synthesizer.synthesizeStream callbacks
      return (synthesizer, .done result)
  | .cancel => do
      perform ApiCommand.cancel
      return (synthesizer, .done (.ok ()))

/-- A call that was made, with what happened during it. -/
structure CallRecord where
  call : Call
  trace : ApiTrace
  returned : Returned

/-- The object goes through these calls, one after the other. -/
inductive Used : SpeechSynthesizer → List CallRecord → SpeechSynthesizer → Prop
  | nil (s : SpeechSynthesizer) : Used s [] s
  | cons {s s' s'' : SpeechSynthesizer} {call : Call} {trace : ApiTrace} {returned : Returned}
      {records : List CallRecord} (run : (s.call call).Runs trace (s', returned))
      (rest : Used s' records s'') : Used s (⟨call, trace, returned⟩ :: records) s''

/-- Everything that happened, over all calls. -/
def history (records : List CallRecord) : ApiTrace := records.flatMap CallRecord.trace

/-- `CancellationToken`: a check reads `true` from the first cancellation on. -/
def TokenLaw (t : ApiTrace) : Prop :=
  t.Pairwise fun ev ev' => ev = ⟨.cancel, ()⟩ ∨ ev = ⟨.isCancelled, true⟩ →
    ev' ≠ ⟨.isCancelled, false⟩

end EdgeTts
