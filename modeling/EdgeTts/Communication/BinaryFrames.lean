import EdgeTts.Communication.EdgeProtocolIncoming

/-!
# Binary messages

A binary message is the length of its prefix and header lines as a 16-bit number, the
lines, a CRLF and the audio data.  `parseIncoming_audioMessage` says that a message written
so is read back, whatever bytes the audio data are made of.  In the other direction, an
accepted message is not always one of that form: the header region goes through the parser
of text frames, which ends the headers at the first blank line
(`parseIncoming_readsWholeRegion_iff`).
-/
namespace EdgeTts

open Search (splitFirst splitOn)

/-! ## Messages as the service writes them -/

/-- The header lines of a binary message, joined with CRLF. -/
def headerBlock (headers : List (Bytes × Bytes)) : Bytes :=
  List.intercalate kCrlf (headers.map headerLine)

/-- A number below 2^16, the most significant byte first. -/
def bigEndian16 (n : Nat) : Bytes := [UInt8.ofNat (n / 256), UInt8.ofNat (n % 256)]

/-- A binary message with the length prefix of its header lines. -/
def binaryMessage (headers : List (Bytes × Bytes)) (body : Bytes) : Bytes :=
  bigEndian16 (2 + (headerBlock headers).length) ++ headerBlock headers ++ kCrlf ++ body

/-- A name and a value that can stand on a header line. -/
structure HeaderParts (h : Bytes × Bytes) : Prop where
  name_colon : kColon ∉ h.1
  name : ¬ kCrlf <:+: h.1
  value : ¬ kCrlf <:+: h.2

theorem HeaderParts.fits {h : Bytes × Bytes} (hp : HeaderParts h) : HeaderFits h :=
  ⟨hp.name_colon, Search.not_pair_infix_append (by decide) (by decide) hp.value hp.name⟩

theorem headerBlock_cons (h : Bytes × Bytes) (headers : List (Bytes × Bytes)) :
    headerBlock (h :: headers) =
      headerLine h ++ headers.flatMap (fun h => kCrlf ++ headerLine h) := by
  induction headers generalizing h with
  | nil => simp [headerBlock]
  | cons h' headers ih =>
      have hcons : headerBlock (h :: h' :: headers) =
          headerLine h ++ kCrlf ++ headerBlock (h' :: headers) := by
        simp [headerBlock, List.intercalate]
      rw [hcons, ih h', List.flatMap_cons]
      simp

/-- The header region, with the separator that `parse_binary_frame` appends to it. -/
theorem parse_headerBlock {headers : List (Bytes × Bytes)} (hne : headers ≠ [])
    (hall : ∀ h ∈ headers, HeaderFits h) :
    ProtocolParser.parse (headerBlock headers ++ kSeparator) = .ok { headers, body := [] } := by
  have hparse := @ProtocolParser.parse_serialize { headers, body := [] } hne hall
  cases headers with
  | nil => exact absurd rfl hne
  | cons h headers =>
      rw [ProtocolSerializer.serialize_eq, List.append_nil, ← headerBlock_cons] at hparse
      exact hparse

theorem bigEndian16_toNat {n : Nat} (h : n < 65536) :
    (UInt8.ofNat (n / 256)).toNat <<< 8 ||| (UInt8.ofNat (n % 256)).toNat = n := by
  have hhi : (UInt8.ofNat (n / 256)).toNat = n / 256 := by
    rw [UInt8.toNat_ofNat', Nat.mod_eq_of_lt (by omega)]
  have hlo : (UInt8.ofNat (n % 256)).toNat = n % 256 := by
    rw [UInt8.toNat_ofNat', Nat.mod_eq_of_lt (by omega)]
  rw [hhi, hlo, ← Nat.shiftLeft_add_eq_or_of_lt (by omega), Nat.shiftLeft_eq]
  omega

section
variable (headers : List (Bytes × Bytes)) (body : Bytes)
  (fits : (headerBlock headers).length ≤ 65533)
include fits

theorem declaredLength_binaryMessage :
    declaredLength (binaryMessage headers body) = 2 + (headerBlock headers).length :=
  bigEndian16_toNat (by omega)

theorem headerRegion_binaryMessage :
    headerRegion (binaryMessage headers body) = headerBlock headers := by
  rw [headerRegion, declaredLength_binaryMessage headers body fits]
  simp [binaryMessage, bigEndian16]

theorem drop_binaryMessage :
    (binaryMessage headers body).drop (declaredLength (binaryMessage headers body)) =
      kCrlf ++ body := by
  rw [declaredLength_binaryMessage headers body fits, ← List.drop_drop]
  simp [binaryMessage, bigEndian16]

end

/-- The headers of an audio message with data. -/
theorem binaryContent_audio {headers : ProtocolMessage} {bodyOffset : Nat} {data : Bytes}
    (path : headers.header (lit "Path") = some (lit "audio"))
    (contentType : headers.header (lit "Content-Type") = some (lit "audio/mpeg"))
    (hbody : data.drop bodyOffset ≠ []) : binaryContent headers bodyOffset data =
      .ok [⟨.audio, some (.audio ⟨data.drop bodyOffset⟩)⟩] := by
  have hlt : bodyOffset < data.length := by
    by_contra hge
    exact hbody (List.drop_eq_nil_of_le (by omega))
  have hread : readRange data bodyOffset (data.length - bodyOffset) =
      .ok (data.drop bodyOffset) := by
    rw [readRange_eq (by omega), List.take_of_length_le (by simp)]
  simp only [binaryContent, path, contentType, hread]
  rw [if_neg (by simp), if_neg (by simp), if_neg (by omega)]
  rfl

/-- **No audio byte is gained or lost at the border of the header lines.** -/
theorem parseIncoming_audioMessage (jsonParse : Bytes → JsonParse)
    {headers : List (Bytes × Bytes)} {body text : Bytes}
    (parts : ∀ h ∈ headers, HeaderParts h)
    (fits : (headerBlock headers).length ≤ 65533)
    (path : headers.lookup (lit "Path") = some (lit "audio"))
    (contentType : headers.lookup (lit "Content-Type") = some (lit "audio/mpeg"))
    (hbody : body ≠ []) :
    parseIncoming jsonParse ⟨.binary, text, binaryMessage headers body⟩ =
      .ok [⟨.audio, some (.audio ⟨body⟩)⟩] := by
  have hne : headers ≠ [] := by
    rintro rfl
    cases path
  have hlen := declaredLength_binaryMessage headers body fits
  have hdrop := drop_binaryMessage headers body fits
  have hbodyAt : (binaryMessage headers body).drop
      (declaredLength (binaryMessage headers body) + 2) = body := by
    rw [← List.drop_drop, hdrop]
    rfl
  show parseBinaryFrame (binaryMessage headers body) = _
  apply parseBinaryFrame_eq_ok_iff.mpr
  refine ⟨by omega, ?_, by rw [hdrop]; rfl, { headers, body := [] }, ?_, ?_⟩
  · rw [hlen]
    simp [binaryMessage, bigEndian16, kCrlf]
    omega
  · rw [headerRegion_binaryMessage headers body fits]
    exact parse_headerBlock hne fun h hh => (parts h hh).fits
  · have haudio := @binaryContent_audio ⟨headers, []⟩ _ (binaryMessage headers body) path
      contentType (by rw [hbodyAt]; exact hbody)
    rw [hbodyAt] at haudio
    exact haudio

/-- A body that looks like header lines. -/
theorem parseIncoming_audioMessage_crlf :
    parseIncoming (fun _ => .outOfRange) ⟨.binary, [],
      binaryMessage [(lit "Content-Type", lit "audio/mpeg"), (lit "Path", lit "audio")]
        (lit "\r\nPath:turn.end\r\n\r\n")⟩ =
      .ok [⟨.audio, some (.audio ⟨lit "\r\nPath:turn.end\r\n\r\n"⟩)⟩] := by
  apply parseIncoming_audioMessage
  · rintro h (_ | ⟨_, _ | ⟨_, ⟨⟩⟩⟩)
    · exact ⟨by decide, by decide, by decide⟩
    · exact ⟨by decide, by decide, by decide⟩
  · decide
  · decide
  · decide
  · decide

/-! ## Messages that are accepted -/

/-- A header line cut at its first colon. -/
def cutLine (line : Bytes) : Bytes × Bytes := (splitFirst [kColon] line).getD (line, [])

/-- The headers that stand in a header region, one for each line. -/
def regionHeaders (region : Bytes) : List (Bytes × Bytes) := (headerLines region).map cutLine

theorem isLineOf_iff {line : Bytes} {h : Bytes × Bytes} :
    IsLineOf line h ↔ kColon ∈ line ∧ cutLine line = h := by
  rw [← parseHeaderLine_eq_ok_iff, parseHeaderLine_eq, cutLine, ← List.singleton_infix_iff]
  cases hs : splitFirst [kColon] line with
  | none => simp [Search.splitFirst_eq_none_iff.mp hs]
  | some p =>
      have hmem : [kColon] <:+: line := by
        by_contra hn
        rw [Search.splitFirst_eq_none_iff.mpr hn] at hs
        cases hs
      simp [hmem]

/-- The headers of lines that hold a colon, and no others. -/
theorem forall₂_isLineOf_iff {lines : List Bytes} {headers : List (Bytes × Bytes)} :
    List.Forall₂ IsLineOf lines headers ↔
      (∀ line ∈ lines, kColon ∈ line) ∧ lines.map cutLine = headers := by
  have hrel : IsLineOf = fun line h => kColon ∈ line ∧ cutLine line = h := by
    funext line h
    exact propext isLineOf_iff
  rw [hrel, List.forall₂_and_left, ← List.forall₂_map_left_iff (R := Eq), List.forall₂_eq_eq_eq]

/-- A header region is well formed, and `headers` are the headers of the whole region. -/
structure ReadsWholeRegion (region : Bytes) (headers : ProtocolMessage) : Prop where
  wellFormed : ∀ line ∈ splitOn kCrlf region, line ≠ [] → kColon ∈ line
  path : headers.header (lit "Path") = (regionHeaders region).lookup (lit "Path")
  contentType : headers.header (lit "Content-Type") =
    (regionHeaders region).lookup (lit "Content-Type")
  nothingSkipped : headers.headers = regionHeaders region

/-- Reading the whole region is reading every line of it. -/
theorem readsWholeRegion_iff {region : Bytes} {headers : ProtocolMessage} :
    ReadsWholeRegion region headers ↔
      List.Forall₂ IsLineOf (headerLines region) headers.headers := by
  rw [forall₂_isLineOf_iff]
  constructor
  · intro h
    refine ⟨fun line hline => ?_, h.nothingSkipped.symm⟩
    obtain ⟨hmem, hne⟩ := List.mem_filter.mp hline
    exact h.wellFormed line hmem (by simpa using hne)
  · rintro ⟨hcolon, heq⟩
    refine ⟨fun line hline hne => ?_, ?_, ?_, heq.symm⟩
    · exact hcolon line (List.mem_filter.mpr ⟨hline, by simpa using hne⟩)
    · rw [ProtocolMessage.header, ← heq, regionHeaders]
    · rw [ProtocolMessage.header, ← heq, regionHeaders]

/-! ## The end of the header region -/

theorem headerLines_append (a b : Bytes) :
    headerLines (a ++ kCrlf ++ b) = headerLines a ++ headerLines b := by
  rw [headerLines, kCrlf, Search.splitOn_append_append (by decide), List.filter_append]
  rfl

/-- The header lines before the first blank line, and those that follow it. -/
theorem headerLines_append_separator (a b : Bytes) :
    headerLines (a ++ kSeparator ++ b) = headerLines a ++ headerLines b := by
  have hsep : a ++ kSeparator ++ b = a ++ kCrlf ++ ([] ++ kCrlf ++ b) := by
    simp [kSeparator, kCrlf]
  rw [hsep, headerLines_append, headerLines_append, headerLines_nil, List.nil_append]

/-- The separator that is appended to a region without one is found at the end of the
region, or at the CRLF that the region ends with. -/
theorem splitFirst_append_separator {region a b : Bytes}
    (hnone : splitFirst kSeparator region = none)
    (h : splitFirst kSeparator (region ++ kSeparator) = some (a, b)) :
    region = a ∨ region = a ++ kCrlf := by
  obtain ⟨heq, -⟩ := Search.splitFirst_sound h
  have hfree := Search.splitFirst_eq_none_iff.mp hnone
  rw [List.append_assoc] at heq
  rcases List.append_eq_append_iff.mp heq with ⟨u, rfl, hu⟩ | ⟨u, rfl, hu⟩
  · have hnil : u = [] := by
      have := congrArg List.length hu
      simp at this
      exact List.eq_nil_of_length_eq_zero (by omega)
    exact Or.inl (by rw [hnil, List.append_nil])
  · -- `u` is shorter than the separator, and what follows it starts with one as well
    have hfew : ¬ kSeparator <+: u := fun hp =>
      hfree (hp.isInfix.trans (List.suffix_append a u).isInfix)
    match u, hu, hfew with
    | [], _, _ => exact Or.inl (List.append_nil a)
    | [x], hu, _ => cases hu
    | [x, y], hu, _ =>
        cases hu
        exact Or.inr rfl
    | [x, y, z], hu, _ => cases hu
    | w :: x :: y :: z :: u, hu, hfew =>
        cases hu
        exact absurd ⟨u, rfl⟩ hfew

/-- What the parser of text frames reads of a header region. -/
theorem headerLines_region {region a b : Bytes}
    (h : splitFirst kSeparator (region ++ kSeparator) = some (a, b)) :
    ∃ rest, headerLines region = headerLines a ++ headerLines rest ∧
      (splitFirst kSeparator region = none ∧ rest = [] ∨
        splitFirst kSeparator region = some (a, rest)) := by
  cases hs : splitFirst kSeparator region with
  | none =>
      refine ⟨[], ?_, Or.inl ⟨rfl, rfl⟩⟩
      rw [headerLines_nil, List.append_nil]
      rcases splitFirst_append_separator hs h with rfl | rfl
      · rfl
      · rw [← List.append_nil (a ++ kCrlf), headerLines_append, headerLines_nil, List.append_nil]
  | some p =>
      obtain ⟨a', rest⟩ := p
      obtain ⟨rfl, ha'⟩ := Search.splitFirst_sound hs
      rw [List.append_assoc, Search.splitFirst_append _ ha'] at h
      cases h
      exact ⟨rest, headerLines_append_separator a rest, Or.inr rfl⟩

/-- Only blank lines follow the first empty line of a header region. -/
def BlankAfterSeparator (region : Bytes) : Prop :=
  ∀ a rest, splitFirst kSeparator region = some (a, rest) → ∀ line ∈ splitOn kCrlf rest, line = []

theorem headerLines_eq_nil_iff_blank {rest : Bytes} :
    headerLines rest = [] ↔ ∀ line ∈ splitOn kCrlf rest, line = [] := by
  simp [headerLines, List.filter_eq_nil_iff]

/-- The parser of text frames reads the whole region unless lines follow an empty one. -/
theorem readsWholeRegion_iff_blank {region : Bytes} {headers : ProtocolMessage}
    (hparse : ProtocolParser.parse (region ++ kSeparator) = .ok headers) :
    ReadsWholeRegion region headers ↔ BlankAfterSeparator region := by
  obtain ⟨a, hs, hheaders⟩ := ProtocolParser.parse_eq_ok_iff.mp hparse
  have hread := parseHeaders_eq_ok_iff.mp hheaders
  obtain ⟨rest, hlines, hrest⟩ := headerLines_region hs
  have hblank : BlankAfterSeparator region ↔ headerLines rest = [] := by
    rcases hrest with ⟨hnone, rfl⟩ | hsome
    · exact iff_of_true (fun a rest h => by rw [hnone] at h; cases h) headerLines_nil
    · rw [headerLines_eq_nil_iff_blank]
      constructor
      · intro h
        exact h a rest hsome
      · intro h a' rest' h'
        rw [hsome] at h'
        cases h'
        exact h
  rw [readsWholeRegion_iff, hblank, hlines]
  constructor
  · intro hall
    have hlen := hall.length_eq
    rw [List.length_append, hread.length_eq] at hlen
    exact List.eq_nil_of_length_eq_zero (by omega)
  · intro hnil
    rw [hnil, List.append_nil]
    exact hread

/-- **When an accepted binary message has been read in full**: its header region is well
formed, and the decision is made on the headers of the whole region, exactly when the region
has nothing but blank lines after its first empty line. -/
theorem parseIncoming_readsWholeRegion_iff {jsonParse : Bytes → JsonParse} {text data : Bytes}
    {msgs : List IncomingMessage}
    (accepted : parseIncoming jsonParse ⟨.binary, text, data⟩ = .ok msgs) :
    (∃ headers, ProtocolParser.parse (headerRegion data ++ kSeparator) = .ok headers ∧
      binaryContent headers (declaredLength data + 2) data = .ok msgs ∧
      ReadsWholeRegion (headerRegion data) headers) ↔
      BlankAfterSeparator (headerRegion data) := by
  obtain ⟨-, -, -, headers, hparse, hcontent⟩ := parseBinaryFrame_eq_ok_iff.mp accepted
  constructor
  · rintro ⟨headers', hparse', -, hwhole⟩
    exact (readsWholeRegion_iff_blank hparse').mp hwhole
  · intro hblank
    exact ⟨headers, hparse, hcontent, (readsWholeRegion_iff_blank hparse).mpr hblank⟩

/-- A message whose header lines end with an empty line. -/
theorem parseIncoming_readsWholeRegion_iff_sample :
    ∃ headers, ProtocolParser.parse (lit "Path:audio\r\n\r\n" ++ kSeparator) = .ok headers ∧
      binaryContent headers 18 (lit "\x00\x10Path:audio\r\n\r\n\r\n") =
        .ok [⟨.ignored, none⟩] ∧
      ReadsWholeRegion (lit "Path:audio\r\n\r\n") headers := by
  have accepted : parseIncoming (fun _ => .outOfRange)
      ⟨.binary, [], lit "\x00\x10Path:audio\r\n\r\n\r\n"⟩ = .ok [⟨.ignored, none⟩] := by
    decide +kernel
  refine (parseIncoming_readsWholeRegion_iff accepted).mpr ?_
  intro a rest h
  have hrest : rest = [] := by
    have h' : splitFirst kSeparator (lit "Path:audio\r\n\r\n") = some (lit "Path:audio", []) := by
      decide
    have heq := h'.symm.trans h
    cases heq
    rfl
  rw [← headerLines_eq_nil_iff_blank, hrest, headerLines_nil]

/-- An audio message with a header line that has no colon, as it is received. -/
def garbageMessage : Bytes :=
  lit "\x00\x30Path:audio\r\nContent-Type:audio/mpeg\r\n\r\ngarbage\r\nbody"

/-- It is accepted, and its last header line is not read. -/
theorem not_readsWholeRegion :
    parseIncoming (fun _ => .outOfRange) ⟨.binary, [], garbageMessage⟩ =
        .ok [⟨.audio, some (.audio ⟨lit "body"⟩)⟩] ∧
      ∀ headers, ¬ ReadsWholeRegion (headerRegion garbageMessage) headers := by
  refine ⟨by decide +kernel, fun headers h => ?_⟩
  have hregion : headerRegion garbageMessage =
      lit "Path:audio\r\nContent-Type:audio/mpeg\r\n" ++ kCrlf ++ lit "garbage" := by
    decide
  have hline : lit "garbage" ∈ splitOn kCrlf (headerRegion garbageMessage) := by
    rw [hregion, kCrlf, Search.splitOn_append_append (by decide), ← kCrlf]
    refine List.mem_append_right _ ?_
    rw [Search.splitOn_eq_singleton (by decide)]
    exact List.mem_singleton_self _
  exact absurd (h.wellFormed _ hline (by decide)) (by decide)

end EdgeTts
