import EdgeTts.Common.Error

/-!
# `core/Chunk.hpp` and `core/Voice.hpp`

The values that the service sends: audio, boundary events and voices.
-/
namespace EdgeTts

inductive BoundaryEventType where
  | wordBoundary
  | sentenceBoundary
  deriving DecidableEq, Repr

/-- Raw MP3 audio data. -/
structure AudioChunk where
  data : Bytes
  deriving DecidableEq, Repr

/-- A word or sentence boundary, in ticks of 100 ns. -/
structure BoundaryChunk where
  type : BoundaryEventType := .sentenceBoundary
  text : Bytes := []
  offsetTicks : Int64 := 0
  durationTicks : Int64 := 0
  deriving DecidableEq, Repr

/-- `std::variant<AudioChunk, BoundaryChunk>`. -/
inductive TtsChunk where
  | audio (chunk : AudioChunk)
  | boundary (chunk : BoundaryChunk)
  deriving DecidableEq, Repr

def isAudio : TtsChunk → Bool
  | .audio _ => true
  | .boundary _ => false

inductive VoiceGender where
  | unknown
  | female
  | male
  deriving DecidableEq, Repr

def voiceGenderFromString (value : Bytes) : Result VoiceGender :=
  if value = lit "Female" then .ok .female
  else if value = lit "Male" then .ok .male
  else .error ⟨.invalidArgument, lit "voice_gender_from_string: unrecognised value", value⟩

structure Voice where
  name : Bytes
  shortName : Bytes
  gender : VoiceGender
  locale : Bytes
  friendlyName : Bytes
  status : Bytes
  suggestedCodec : Bytes
  contentCategories : List Bytes
  voicePersonalities : List Bytes
  language : Bytes
  deriving DecidableEq, Repr

end EdgeTts
