import EdgeTts.Serialization.Protocol
import EdgeTts.Serialization.Json

/-!
# `communication/EdgeProtocolIncoming.cpp`

Messages from the service.  Reads outside a binary message would be undefined
behaviour and are modelled as escapes (`byteAt`, `readRange`), so `parseIncoming`
not escaping says that the length checks are complete.  `parseIncoming_shape` is
what the receive loop may rely on.
-/
namespace EdgeTts

/-- `WebSocketMessage::Type`. -/
inductive MessageType where
  | text
  | binary
  deriving DecidableEq, Repr

structure WebSocketMessage where
  type : MessageType
  text : Bytes := []
  binary : Bytes := []
  deriving DecidableEq, Repr

inductive IncomingMessageKind where
  | audio
  | boundary
  | turnEnd
  | ignored
  deriving DecidableEq, Repr

structure IncomingMessage where
  kind : IncomingMessageKind
  chunk : Option TtsChunk
  deriving DecidableEq, Repr

/-- Return an error of the callee as a `protocol_error`. -/
def orProtocolError {α : Type} (message : Bytes) : Outcome α → Outcome α
  | .ok a => .ok a
  | .fail e => .fail ⟨.protocolError, message, e.what⟩
  | .escape x => .escape x

/-- `data[i]`. -/
def byteAt (data : Bytes) (i : Nat) : Outcome UInt8 :=
  match data[i]? with
  | some b => .ok b
  | none => .escape .outOfBounds

/-- The bytes `[start, start + len)`. -/
def readRange (data : Bytes) (start len : Nat) : Outcome Bytes :=
  if start + len ≤ data.length then .ok ((data.drop start).take len) else .escape .outOfBounds

section
variable (jsonParse : Bytes → JsonParse)

/-- `parse_text_frame`. -/
def parseTextFrame (text : Bytes) : Outcome (List IncomingMessage) := do
  let msg ← orProtocolError (lit "text frame parse error") (ProtocolParser.parse text)
  match msg.header (lit "Path") with
  | none => .fail ⟨.protocolError, lit "text frame missing Path header", []⟩
  | some path =>
      if path = lit "audio.metadata" then do
        let chunks ← orProtocolError (lit "audio.metadata parse error")
          (MetadataJsonParser.parse jsonParse msg.body)
        if chunks.isEmpty then .fail ⟨.protocolError, lit "No WordBoundary metadata found", []⟩
        else return chunks.map fun bc => { kind := .boundary, chunk := some (.boundary bc) }
      else if path = lit "turn.end" then .ok [{ kind := .turnEnd, chunk := none }]
      else if path = lit "response" ∨ path = lit "turn.start" then
        .ok [{ kind := .ignored, chunk := none }]
      else .fail ⟨.protocolError, lit "unknown text frame path", path⟩

/-- The check of the two separator bytes. -/
def separatorIsBad (headerLength : Nat) (data : Bytes) : Outcome Bool := do
  let cr ← byteAt data headerLength
  if cr ≠ 0x0D then return true
  else
    let lf ← byteAt data (headerLength + 1)
    return decide (lf ≠ 0x0A)

/-- The part of `parse_binary_frame` that decides on the headers; the body is
`data.size() - body_offset` bytes long. -/
def binaryContent (headers : ProtocolMessage) (bodyOffset : Nat) (data : Bytes) :
    Outcome (List IncomingMessage) :=
  let path := headers.header (lit "Path")
  if path ≠ some (lit "audio") then
    .fail ⟨.protocolError, lit "binary frame path is not audio", path.getD (lit "(absent)")⟩
  else
    match headers.header (lit "Content-Type") with
    | some contentType =>
        if contentType ≠ lit "audio/mpeg" then
          .fail ⟨.protocolError, lit "unexpected binary frame Content-Type", contentType⟩
        else if data.length - bodyOffset = 0 then
          .fail ⟨.protocolError, lit "binary audio frame is missing audio data", []⟩
        else do
          let body ← readRange data bodyOffset (data.length - bodyOffset)
          return [{ kind := .audio, chunk := some (.audio { data := body }) }]
    | none =>
        if data.length - bodyOffset = 0 then .ok [{ kind := .ignored, chunk := none }]
        else
          .fail ⟨.protocolError, lit "binary message has no Content-Type but non-empty body", []⟩

/-- `parse_binary_frame`, once `header_length` has been read. -/
def binaryFrame (headerLength : Nat) (data : Bytes) : Outcome (List IncomingMessage) :=
  if headerLength < 2 then
    .fail ⟨.protocolError, lit "binary frame header_length is too small (minimum 2)", []⟩
  else if headerLength > data.length then
    .fail ⟨.protocolError, lit "binary message header_length exceeds message size", []⟩
  else if headerLength + 2 > data.length then
    .fail ⟨.protocolError, lit "binary frame missing \\r\\n separator after header", []⟩
  else do
    let bad ← separatorIsBad headerLength data
    if bad then .fail ⟨.protocolError, lit "binary frame separator is not \\r\\n", []⟩
    else
      let headerStr ← readRange data 2 (headerLength - 2)
      let headers ← orProtocolError (lit "binary frame header parse error")
        (ProtocolParser.parse (headerStr ++ kSeparator))
      binaryContent headers (headerLength + 2) data

/-- `parse_binary_frame`. -/
def parseBinaryFrame (data : Bytes) : Outcome (List IncomingMessage) :=
  if data.length < 2 then
    .fail ⟨.protocolError, lit "binary message too short for header length", []⟩
  else do
    let hi ← byteAt data 0
    let lo ← byteAt data 1
    binaryFrame (hi.toNat <<< 8 ||| lo.toNat) data

/-- `EdgeProtocol::parse_incoming`. -/
def parseIncoming (message : WebSocketMessage) : Outcome (List IncomingMessage) :=
  match message.type with
  | .text => parseTextFrame jsonParse message.text
  | .binary => parseBinaryFrame message.binary

end

/-! ## Nothing is read outside the message -/

theorem orProtocolError_okOr {α : Type} {message : Bytes} {x : Outcome α} (h : x.Returns) :
    (orProtocolError message x).OkOr .protocolError := by
  cases x with
  | ok a => trivial
  | fail e => rfl
  | escape y => exact h y rfl

theorem byteAt_okOr {data : Bytes} {i : Nat} (h : i < data.length) (c : ErrorCode) :
    (byteAt data i).OkOr c := by
  rw [byteAt, List.getElem?_eq_getElem h]
  trivial

theorem readRange_eq {data : Bytes} {start len : Nat} (h : start + len ≤ data.length) :
    readRange data start len = .ok ((data.drop start).take len) := by
  rw [readRange, if_pos h]

theorem separatorIsBad_okOr {headerLength : Nat} {data : Bytes}
    (h : headerLength + 2 ≤ data.length) (c : ErrorCode) :
    (separatorIsBad headerLength data).OkOr c := by
  refine (byteAt_okOr (by omega) c).bind fun cr _ => ?_
  split
  · trivial
  · exact (byteAt_okOr (by omega) c).bind fun _ _ => trivial

theorem binaryContent_okOr (headers : ProtocolMessage) {bodyOffset : Nat} {data : Bytes}
    (h : bodyOffset ≤ data.length) :
    (binaryContent headers bodyOffset data).OkOr .protocolError := by
  simp only [binaryContent]
  split
  · rfl
  split
  · split
    · rfl
    split
    · rfl
    · rw [readRange_eq (by omega)]
      trivial
  · split
    · trivial
    · rfl

theorem binaryFrame_okOr (headerLength : Nat) (data : Bytes) :
    (binaryFrame headerLength data).OkOr .protocolError := by
  rw [binaryFrame]
  split
  · rfl
  split
  · rfl
  split
  · rfl
  refine (separatorIsBad_okOr (by omega) _).bind fun bad _ => ?_
  split
  · rfl
  · rw [readRange_eq (by omega)]
    exact (orProtocolError_okOr (ProtocolParser.parse_okOr _).returns).bind fun headers _ =>
      binaryContent_okOr headers (by omega)

/-- **Binary messages**: a value or a `protocol_error`, and no read outside. -/
theorem parseBinaryFrame_okOr (data : Bytes) : (parseBinaryFrame data).OkOr .protocolError := by
  rw [parseBinaryFrame]
  split
  · rfl
  · exact (byteAt_okOr (by omega) _).bind fun hi _ =>
      (byteAt_okOr (by omega) _).bind fun lo _ => binaryFrame_okOr _ data

section
variable {jsonParse : Bytes → JsonParse}

/-- A metadata message on whose body `json::parse` throws `out_of_range`. -/
def Overflowing (jsonParse : Bytes → JsonParse) (message : WebSocketMessage) : Prop :=
  message.type = .text ∧ ∃ msg, ProtocolParser.parse message.text = .ok msg ∧
    msg.header (lit "Path") = some (lit "audio.metadata") ∧ jsonParse msg.body = .outOfRange

theorem parseTextFrame_okOr_iff (text : Bytes) :
    (parseTextFrame jsonParse text).OkOr .protocolError ↔
      ¬ ∃ msg, ProtocolParser.parse text = .ok msg ∧
        msg.header (lit "Path") = some (lit "audio.metadata") ∧
        jsonParse msg.body = .outOfRange := by
  rw [parseTextFrame]
  cases hp : ProtocolParser.parse text with
  | fail e => exact iff_of_true rfl (by simp)
  | escape x => exact absurd hp ((ProtocolParser.parse_okOr text).returns x)
  | ok msg =>
      simp only [orProtocolError, Outcome.ok_bind, Outcome.ok.injEq, exists_eq_left']
      cases hpath : msg.header (lit "Path") with
      | none => exact iff_of_true rfl (by simp)
      | some path =>
          simp only [Option.some.injEq]
          by_cases hmeta : path = lit "audio.metadata"
          · rw [if_pos hmeta]
            simp only [hmeta, true_and]
            by_cases hj : jsonParse msg.body = .outOfRange
            · refine iff_of_false (fun h => ?_) (not_not.mpr hj)
              rw [MetadataJsonParser.parse, hj] at h
              exact h
            · refine iff_of_true ?_ hj
              have hparse := (MetadataJsonParser.parse_okOr_iff jsonParse msg.body).mpr hj
              refine (orProtocolError_okOr hparse.returns).bind fun chunks _ => ?_
              split
              · rfl
              · trivial
          · rw [if_neg hmeta]
            refine iff_of_true ?_ (fun h => hmeta h.1)
            split
            · trivial
            split
            · trivial
            · rfl

/-- **Only an overflowing number in a metadata message escapes the parser.** -/
theorem parseIncoming_okOr_iff (message : WebSocketMessage) :
    (parseIncoming jsonParse message).OkOr .protocolError ↔ ¬ Overflowing jsonParse message := by
  rw [parseIncoming, Overflowing]
  cases message.type with
  | text => simpa using parseTextFrame_okOr_iff message.text
  | binary => exact iff_of_true (parseBinaryFrame_okOr _) (by simp)

theorem parseIncoming_of_overflowing {message : WebSocketMessage}
    (h : Overflowing jsonParse message) :
    parseIncoming jsonParse message = .escape .jsonOutOfRange := by
  obtain ⟨htype, msg, hp, hpath, hj⟩ := h
  simp only [parseIncoming, htype, parseTextFrame, hp, orProtocolError, Outcome.ok_bind, hpath,
    if_pos, MetadataJsonParser.parse, hj, Outcome.escape_bind]

theorem parseIncoming_escape_iff (message : WebSocketMessage) :
    (∃ x, parseIncoming jsonParse message = .escape x) ↔ Overflowing jsonParse message := by
  constructor
  · rintro ⟨x, hx⟩
    by_contra h
    exact ((parseIncoming_okOr_iff message).mpr h).returns x hx
  · intro h
    exact ⟨.jsonOutOfRange, parseIncoming_of_overflowing h⟩

/-- No other exception leaves the parser, and no undefined behaviour. -/
theorem parseIncoming_escape {message : WebSocketMessage} {x : Escape}
    (h : parseIncoming jsonParse message = .escape x) : x = .jsonOutOfRange := by
  have hover := parseIncoming_of_overflowing ((parseIncoming_escape_iff message).mp ⟨x, h⟩)
  rw [h] at hover
  exact Outcome.escape.inj hover

/-! ## What an accepted message holds -/

/-- The length that a binary message declares for its prefix and header lines. -/
def declaredLength (data : Bytes) : Nat :=
  (data.getD 0 0).toNat <<< 8 ||| (data.getD 1 0).toNat

/-- The header region `[2, declaredLength)` of a binary message. -/
def headerRegion (data : Bytes) : Bytes := (data.drop 2).take (declaredLength data - 2)

theorem orProtocolError_eq_ok {α : Type} {message : Bytes} {x : Outcome α} {a : α} :
    orProtocolError message x = .ok a ↔ x = .ok a := by
  cases x <;> simp [orProtocolError]

theorem byteAt_eq {data : Bytes} {i : Nat} (h : i < data.length) :
    byteAt data i = .ok (data.getD i 0) := by
  rw [byteAt, List.getD, List.getElem?_eq_getElem h]
  rfl

theorem separatorIsBad_eq {headerLength : Nat} {data : Bytes}
    (h : headerLength + 2 ≤ data.length) : separatorIsBad headerLength data =
      .ok (decide ((data.drop headerLength).take 2 ≠ kCrlf)) := by
  have hpair : (data.drop headerLength).take 2 =
      [data.getD headerLength 0, data.getD (headerLength + 1) 0] := by
    rw [List.drop_eq_getElem_cons (by omega), List.drop_eq_getElem_cons (by omega), List.getD,
      List.getD, List.getElem?_eq_getElem (by omega), List.getElem?_eq_getElem (by omega)]
    rfl
  rw [hpair, separatorIsBad, byteAt_eq (by omega), byteAt_eq (by omega), Outcome.ok_bind,
    Outcome.ok_bind, kCrlf]
  generalize data.getD headerLength 0 = cr
  generalize data.getD (headerLength + 1) 0 = lf
  by_cases hcr : cr = 0x0D
  · simp [hcr]
  · simp [hcr]

/-- **What `parse_binary_frame` accepts.** -/
theorem parseBinaryFrame_eq_ok_iff {data : Bytes} {msgs : List IncomingMessage} :
    parseBinaryFrame data = .ok msgs ↔
      2 ≤ declaredLength data ∧ declaredLength data + 2 ≤ data.length ∧
      (data.drop (declaredLength data)).take 2 = kCrlf ∧
      ∃ headers, ProtocolParser.parse (headerRegion data ++ kSeparator) = .ok headers ∧
        binaryContent headers (declaredLength data + 2) data = .ok msgs := by
  rw [parseBinaryFrame]
  by_cases hshort : data.length < 2
  · rw [if_pos hshort]
    refine iff_of_false nofun ?_
    rintro ⟨-, h, -⟩
    omega
  rw [if_neg hshort, byteAt_eq (by omega), byteAt_eq (by omega), Outcome.ok_bind, Outcome.ok_bind]
  show binaryFrame (declaredLength data) data = .ok msgs ↔ _
  rw [binaryFrame]
  by_cases hsmall : declaredLength data < 2
  · rw [if_pos hsmall]
    exact iff_of_false nofun fun h => by omega
  by_cases hexceeds : declaredLength data > data.length
  · rw [if_neg hsmall, if_pos hexceeds]
    exact iff_of_false nofun fun h => by omega
  by_cases hmissing : declaredLength data + 2 > data.length
  · rw [if_neg hsmall, if_neg hexceeds, if_pos hmissing]
    exact iff_of_false nofun fun h => by omega
  rw [if_neg hsmall, if_neg hexceeds, if_neg hmissing, separatorIsBad_eq (by omega),
    Outcome.ok_bind, readRange_eq (by omega), Outcome.ok_bind]
  by_cases hsep : (data.drop (declaredLength data)).take 2 = kCrlf
  · rw [if_neg (by simpa using hsep), Outcome.bind_eq_ok]
    simp only [orProtocolError_eq_ok]
    refine ⟨fun h => ⟨by omega, by omega, hsep, h⟩, fun h => h.2.2.2⟩
  · rw [if_pos (by simpa using hsep)]
    exact iff_of_false nofun fun h => hsep h.2.2.1

/-- The four kinds of lists the parser returns. -/
inductive Shape : List IncomingMessage → Prop
  | turnEnd : Shape [⟨.turnEnd, none⟩]
  | ignored : Shape [⟨.ignored, none⟩]
  | audio {data : Bytes} (h : data ≠ []) : Shape [⟨.audio, some (.audio ⟨data⟩)⟩]
  | boundaries {bcs : List BoundaryChunk} (h : bcs ≠ []) :
      Shape (bcs.map fun bc => ⟨.boundary, some (.boundary bc)⟩)

theorem binaryContent_shape {headers : ProtocolMessage} {bodyOffset : Nat} {data : Bytes}
    {msgs : List IncomingMessage} (h : binaryContent headers bodyOffset data = .ok msgs) :
    Shape msgs := by
  simp only [binaryContent] at h
  split at h
  · cases h
  split at h
  · split at h
    · cases h
    split at h
    · cases h
    rename_i hbody
    obtain ⟨body, hread, h⟩ := Outcome.bind_eq_ok.mp h
    cases h
    refine .audio fun hnil => hbody ?_
    rw [readRange] at hread
    split at hread
    · cases hread
      have := congrArg List.length hnil
      simp only [List.length_take, List.length_drop, List.length_nil] at this
      omega
    · cases hread
  · split at h
    · cases h
      exact .ignored
    · cases h

theorem parseBinaryFrame_shape {data : Bytes} {msgs : List IncomingMessage}
    (h : parseBinaryFrame data = .ok msgs) : Shape msgs := by
  obtain ⟨-, -, -, headers, -, h⟩ := parseBinaryFrame_eq_ok_iff.mp h
  exact binaryContent_shape h

theorem parseTextFrame_shape {text : Bytes} {msgs : List IncomingMessage}
    (h : parseTextFrame jsonParse text = .ok msgs) : Shape msgs := by
  obtain ⟨msg, -, h⟩ := Outcome.bind_eq_ok.mp h
  split at h
  · cases h
  split at h
  · obtain ⟨chunks, -, h⟩ := Outcome.bind_eq_ok.mp h
    split at h
    · cases h
    · rename_i hne
      cases h
      exact .boundaries (by simpa using hne)
  split at h
  · cases h
    exact .turnEnd
  split at h
  · cases h
    exact .ignored
  · cases h

/-- **What the receive loop may rely on**: a turn end or an ignored message comes
alone, audio is not empty, and boundaries carry their chunks. -/
theorem parseIncoming_shape {message : WebSocketMessage} {msgs : List IncomingMessage}
    (h : parseIncoming jsonParse message = .ok msgs) : Shape msgs := by
  rw [parseIncoming] at h
  split at h
  · exact parseTextFrame_shape h
  · exact parseBinaryFrame_shape h

/-- The contents of an accepted message, kind by kind. -/
structure WellShaped (msgs : List IncomingMessage) : Prop where
  nonempty : msgs ≠ []
  audio : ∀ msg ∈ msgs, msg.kind = .audio → ∃ data, data ≠ [] ∧ msg.chunk = some (.audio ⟨data⟩)
  boundary : ∀ msg ∈ msgs, msg.kind = .boundary → ∃ bc, msg.chunk = some (.boundary bc)
  turnEnd : ∀ msg ∈ msgs, msg.kind = .turnEnd → msg.chunk = none ∧ msgs = [msg]
  ignored : ∀ msg ∈ msgs, msg.kind = .ignored → msg.chunk = none

theorem Shape.wellShaped {msgs : List IncomingMessage} (shape : Shape msgs) : WellShaped msgs := by
  cases shape with
  | turnEnd => constructor <;> simp
  | ignored => constructor <;> simp
  | audio h => constructor <;> simp [h]
  | boundaries h => constructor <;> simp [h]

end
end EdgeTts
