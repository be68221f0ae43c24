import EdgeTts.Lib.Parts
import EdgeTts.Lib.Search
import EdgeTts.Common.Error

/-!
# Protocol messages

`serialization/ProtocolMessage.cpp`, `ProtocolParser.cpp` and
`ProtocolSerializer.cpp`.  A text frame is header lines `Name:Value` ended by
CRLF, an empty line and a body.  The parser looks for separators by position;
`parse_eq` says the same by decomposition, and `parse_serialize` is the round
trip for headers that hold no separator of their own.  Parsed headers are such headers
(`headerFits_of_parseHeaders`), so a parsed message is serialised faithfully exactly when
it has a header (`parse_serialize_parse`).
-/
namespace EdgeTts

open Search (splitFirst splitOn Fresh)

structure ProtocolMessage where
  headers : List (Bytes × Bytes)
  body : Bytes
  deriving DecidableEq, Repr

/-- `ProtocolMessage::header`: the first header with the name. -/
def ProtocolMessage.header (msg : ProtocolMessage) (name : Bytes) : Option Bytes :=
  msg.headers.lookup name

def kSeparator : Bytes := [0x0D, 0x0A, 0x0D, 0x0A]

def kCrlf : Bytes := [0x0D, 0x0A]

def kColon : UInt8 := 0x3A

/-- One line and what remains after it. -/
def nextLine (remaining : Bytes) : Outcome (Bytes × Bytes) :=
  match Search.find kCrlf remaining with
  | none => .ok (remaining, [])
  | some crlfPos => do
      let line ← substr remaining 0 (some crlfPos)
      let remaining ← substr remaining (crlfPos + kCrlf.length) none
      return (line, remaining)

theorem nextLine_eq (remaining : Bytes) :
    nextLine remaining = .ok ((splitFirst kCrlf remaining).getD (remaining, [])) := by
  rw [nextLine]
  cases h : Search.find kCrlf remaining with
  | none => rw [Search.find_eq_none h]; rfl
  | some crlfPos =>
      have hle := Search.find_le h
      simp only [substr_of_le (Nat.zero_le _), substr_of_le hle, Outcome.ok_bind,
        Search.find_eq_some h]
      rfl

theorem nextLine_length {remaining line rest : Bytes} (hne : remaining ≠ [])
    (h : nextLine remaining = .ok (line, rest)) : rest.length < remaining.length := by
  rw [nextLine_eq] at h
  cases hs : splitFirst kCrlf remaining with
  | none =>
      rw [hs] at h
      cases h
      exact List.length_pos_of_ne_nil hne
  | some p =>
      rw [hs] at h
      cases h
      obtain ⟨rfl, -⟩ := Search.splitFirst_sound hs
      simp [kCrlf]
      omega

/-- A header line, cut at its first colon. -/
def parseHeaderLine (line : Bytes) : Outcome (Bytes × Bytes) :=
  match Search.find [kColon] line with
  | none => .fail ⟨.parseError, lit "malformed protocol header line — missing ':'", line⟩
  | some colonPos => do
      let name ← substr line 0 (some colonPos)
      let value ← substr line (colonPos + 1) none
      return (name, value)

/-- The header loop of `ProtocolParser::parse`. -/
def parseHeaders (remaining : Bytes) : Outcome (List (Bytes × Bytes)) :=
  if hne : remaining = [] then .ok []
  else
    match h : nextLine remaining with
    | .ok (line, rest) =>
        have := nextLine_length hne h
        if line.isEmpty then parseHeaders rest
        else do
          let header ← parseHeaderLine line
          let headers ← parseHeaders rest
          return header :: headers
    | .fail e => .fail e
    | .escape x => .escape x
  termination_by remaining.length

/-- `ProtocolParser::parse`. -/
def ProtocolParser.parse (frame : Bytes) : Outcome ProtocolMessage :=
  match Search.find kSeparator frame with
  | none =>
      .fail ⟨.parseError, lit "protocol frame missing \\r\\n\\r\\n header/body separator", []⟩
  | some sepPos => do
      let headerSection ← substr frame 0 (some sepPos)
      let body ← substr frame (sepPos + kSeparator.length) none
      let headers ← parseHeaders headerSection
      return { headers, body }

/-- `ProtocolSerializer::serialize`. -/
def ProtocolSerializer.serialize (message : ProtocolMessage) : Bytes :=
  message.headers.flatMap (fun h => h.1 ++ kColon :: h.2 ++ kCrlf) ++ kCrlf ++ message.body

/-! ## The parser by decomposition -/

theorem parseHeaderLine_eq (line : Bytes) : parseHeaderLine line =
    match splitFirst [kColon] line with
    | none => .fail ⟨.parseError, lit "malformed protocol header line — missing ':'", line⟩
    | some header => .ok header := by
  rw [parseHeaderLine]
  cases h : Search.find [kColon] line with
  | none => rw [Search.find_eq_none h]
  | some colonPos =>
      have hle : colonPos + 1 ≤ line.length := Search.find_le h
      simp only [substr_of_le (Nat.zero_le _), substr_of_le hle, Outcome.ok_bind,
        Search.find_eq_some h]
      rfl

theorem parseHeaders_nil : parseHeaders [] = .ok [] := by
  rw [parseHeaders, dif_pos rfl]

theorem parseHeaders_of_ne {remaining line rest : Bytes} (hne : remaining ≠ [])
    (h : (splitFirst kCrlf remaining).getD (remaining, []) = (line, rest)) :
    parseHeaders remaining =
      if line.isEmpty then parseHeaders rest
      else do
        let header ← parseHeaderLine line
        let headers ← parseHeaders rest
        return header :: headers := by
  have hn := nextLine_eq remaining
  rw [h] at hn
  rw [parseHeaders, dif_neg hne]
  split
  · rename_i h'
    rw [hn] at h'
    cases h'
    rfl
  · rename_i h'
    rw [hn] at h'
    cases h'
  · rename_i h'
    rw [hn] at h'
    cases h'

theorem ProtocolParser.parse_eq (frame : Bytes) : parse frame =
    match splitFirst kSeparator frame with
    | none =>
        .fail ⟨.parseError, lit "protocol frame missing \\r\\n\\r\\n header/body separator", []⟩
    | some (headerSection, body) => do
        let headers ← parseHeaders headerSection
        return { headers, body } := by
  rw [parse]
  cases h : Search.find kSeparator frame with
  | none => rw [Search.find_eq_none h]
  | some sepPos =>
      have hle := Search.find_le h
      simp only [substr_of_le (Nat.zero_le _), substr_of_le hle, Outcome.ok_bind,
        Search.find_eq_some h]
      rfl

/-! ## What the parser can return -/

theorem parseHeaderLine_okOr (line : Bytes) : (parseHeaderLine line).OkOr .parseError := by
  rw [parseHeaderLine_eq]
  split <;> simp

theorem parseHeaders_okOr (remaining : Bytes) : (parseHeaders remaining).OkOr .parseError := by
  induction hn : remaining.length using Nat.strongRecOn generalizing remaining with
  | ind n ih =>
      by_cases hne : remaining = []
      · rw [hne, parseHeaders_nil]
        trivial
      · obtain ⟨⟨line, rest⟩, h⟩ : ∃ p, (splitFirst kCrlf remaining).getD (remaining, []) = p :=
          ⟨_, rfl⟩
        have hlen := nextLine_length hne (by rw [nextLine_eq, h])
        have hrest := ih rest.length (by omega) rest rfl
        rw [parseHeaders_of_ne hne h]
        split
        · exact hrest
        · exact (parseHeaderLine_okOr line).bind fun _ _ => hrest.bind fun _ _ => trivial

/-- **The parser returns a message or a `parse_error`.** -/
theorem ProtocolParser.parse_okOr (frame : Bytes) : (parse frame).OkOr .parseError := by
  rw [parse_eq]
  split
  · rfl
  · exact (parseHeaders_okOr _).bind fun _ _ => trivial

/-! ## What the parser accepts -/

/-- The line of a header, without its CRLF. -/
def headerLine (h : Bytes × Bytes) : Bytes := h.1 ++ kColon :: h.2

/-- The lines of a header section: its pieces between CRLFs, without the empty ones. -/
def headerLines (headerSection : Bytes) : List Bytes :=
  (splitOn kCrlf headerSection).filter fun line => !line.isEmpty

theorem headerLines_nil : headerLines [] = [] := by
  rw [headerLines, Search.splitOn_eq_singleton (by decide)]
  rfl

theorem headerLines_of_ne {remaining line rest : Bytes} (hne : remaining ≠ [])
    (h : (splitFirst kCrlf remaining).getD (remaining, []) = (line, rest)) :
    headerLines remaining =
      if line.isEmpty then headerLines rest else line :: headerLines rest := by
  cases hs : splitFirst kCrlf remaining with
  | none =>
      rw [hs] at h
      cases h
      rw [headerLines, Search.splitOn_eq_singleton (Search.splitFirst_eq_none_iff.mp hs),
        headerLines_nil]
      simp [hne]
  | some p =>
      rw [hs] at h
      cases h
      rw [headerLines, Search.splitOn_of_splitFirst (by decide) hs]
      cases line <;> simp [headerLines]

/-- `line` is the line of the header `h`. -/
def IsLineOf (line : Bytes) (h : Bytes × Bytes) : Prop := headerLine h = line ∧ kColon ∉ h.1

theorem parseHeaderLine_eq_ok_iff {line : Bytes} {h : Bytes × Bytes} :
    parseHeaderLine line = .ok h ↔ IsLineOf line h := by
  rw [parseHeaderLine_eq]
  constructor
  · intro heq
    cases hs : splitFirst [kColon] line with
    | none =>
        rw [hs] at heq
        cases heq
    | some p =>
        rw [hs] at heq
        cases heq
        obtain ⟨hline, hfresh⟩ := Search.splitFirst_sound hs
        exact ⟨by rw [hline, headerLine]; simp, Search.fresh_singleton_iff.mp hfresh⟩
  · rintro ⟨rfl, hname⟩
    have hs := Search.splitFirst_append h.2 (Search.fresh_singleton_iff.mpr hname)
    rw [List.append_assoc, List.singleton_append] at hs
    rw [headerLine, hs]

/-- **The header loop reads every line of its section**, and nothing else. -/
theorem parseHeaders_eq_ok_iff {remaining : Bytes} {headers : List (Bytes × Bytes)} :
    parseHeaders remaining = .ok headers ↔
      List.Forall₂ IsLineOf (headerLines remaining) headers := by
  induction hn : remaining.length using Nat.strongRecOn generalizing remaining headers with
  | ind n ih =>
      by_cases hne : remaining = []
      · rw [hne, parseHeaders_nil, headerLines_nil, List.forall₂_nil_left_iff, Outcome.ok.injEq,
          eq_comm]
      · obtain ⟨⟨line, rest⟩, h⟩ : ∃ p, (splitFirst kCrlf remaining).getD (remaining, []) = p :=
          ⟨_, rfl⟩
        have hlen := nextLine_length hne (by rw [nextLine_eq, h])
        rw [parseHeaders_of_ne hne h, headerLines_of_ne hne h]
        by_cases hline : line.isEmpty = true
        · rw [if_pos hline, if_pos hline]
          exact ih rest.length (by omega) rfl
        · rw [if_neg hline, if_neg hline, Outcome.bind_eq_ok, List.forall₂_cons_left_iff]
          constructor
          · rintro ⟨header, hheader, htail⟩
            obtain ⟨headers', hrest, heq⟩ := Outcome.bind_eq_ok.mp htail
            cases heq
            exact ⟨header, headers', parseHeaderLine_eq_ok_iff.mp hheader,
              (ih rest.length (by omega) rfl).mp hrest, rfl⟩
          · rintro ⟨header, headers', hheader, hrest, rfl⟩
            refine ⟨header, parseHeaderLine_eq_ok_iff.mpr hheader, Outcome.bind_eq_ok.mpr ?_⟩
            exact ⟨headers', (ih rest.length (by omega) rfl).mpr hrest, rfl⟩

/-! ## The round trip -/

/-- A header that can be written on a line and read back. -/
structure HeaderFits (h : Bytes × Bytes) : Prop where
  name : kColon ∉ h.1
  line : ¬ kCrlf <:+: h.1 ++ kColon :: h.2

theorem headerLine_ne_nil (h : Bytes × Bytes) : headerLine h ≠ [] := by simp [headerLine]

theorem parseHeaderLine_headerLine {h : Bytes × Bytes} (hf : HeaderFits h) :
    parseHeaderLine (headerLine h) = .ok h := by
  have hfresh : Fresh [kColon] h.1 := Search.fresh_of_not_mem hf.name
  have := Search.splitFirst_append h.2 hfresh
  rw [List.append_assoc, List.singleton_append] at this
  rw [parseHeaderLine_eq, headerLine, this]

theorem parseHeaders_headerLine {h : Bytes × Bytes} {remaining rest : Bytes} (hf : HeaderFits h)
    (hne : remaining ≠ [])
    (hsplit : (splitFirst kCrlf remaining).getD (remaining, []) = (headerLine h, rest)) :
    parseHeaders remaining = (do
      let headers ← parseHeaders rest
      return h :: headers) := by
  rw [parseHeaders_of_ne hne hsplit, if_neg (by simpa using headerLine_ne_nil h),
    parseHeaderLine_headerLine hf]
  rfl

/-- The header section of a serialized message: the lines joined by CRLF. -/
theorem parseHeaders_lines : ∀ {h : Bytes × Bytes} {headers : List (Bytes × Bytes)},
    (∀ x ∈ h :: headers, HeaderFits x) →
    parseHeaders (headerLine h ++ headers.flatMap (fun h => kCrlf ++ headerLine h)) =
      .ok (h :: headers)
  | h, [], hall => by
      have hf := hall h (by simp)
      have hnone : splitFirst kCrlf (headerLine h) = none :=
        Search.splitFirst_eq_none_iff.mpr hf.line
      rw [List.flatMap_nil, List.append_nil,
        parseHeaders_headerLine hf (headerLine_ne_nil h) (by rw [hnone]; rfl), parseHeaders_nil]
      rfl
  | h, h' :: headers, hall => by
      have hf := hall h (by simp)
      have ih : parseHeaders (headerLine h' ++ headers.flatMap fun h => kCrlf ++ headerLine h) =
          .ok (h' :: headers) :=
        parseHeaders_lines fun x hx => hall x (List.mem_cons_of_mem h hx)
      have hfresh : Fresh kCrlf (headerLine h) := Search.fresh_pair (by decide) hf.line
      have hsplit := Search.splitFirst_append
        (headerLine h' ++ headers.flatMap (fun h => kCrlf ++ headerLine h)) hfresh
      rw [List.flatMap_cons, List.append_assoc, ← List.append_assoc,
        parseHeaders_headerLine hf (by simp [headerLine]) (by rw [hsplit]; rfl), ih]
      rfl

/-- Lines that are ended are lines that are separated, and one more end. -/
theorem flatMap_headerLine (h : Bytes × Bytes) (headers : List (Bytes × Bytes)) :
    (h :: headers).flatMap (fun h => h.1 ++ kColon :: h.2 ++ kCrlf) =
      headerLine h ++ headers.flatMap (fun h => kCrlf ++ headerLine h) ++ kCrlf := by
  induction headers generalizing h with
  | nil => simp [headerLine]
  | cons h' headers ih =>
      rw [List.flatMap_cons, ih h']
      simp [headerLine]

/-- A serialized message is its header lines, the separator and the body. -/
theorem ProtocolSerializer.serialize_eq (h : Bytes × Bytes) (headers : List (Bytes × Bytes))
    (body : Bytes) : serialize { headers := h :: headers, body } =
      (headerLine h ++ headers.flatMap (fun h => kCrlf ++ headerLine h)) ++ kSeparator ++ body := by
  rw [serialize, flatMap_headerLine]
  simp [kSeparator, kCrlf]

/-- **Parsing inverts serializing**, whatever the body. -/
theorem ProtocolParser.parse_serialize {message : ProtocolMessage} (hne : message.headers ≠ [])
    (hall : ∀ h ∈ message.headers, HeaderFits h) :
    parse (ProtocolSerializer.serialize message) = .ok message := by
  obtain ⟨headers, body⟩ := message
  cases headers with
  | nil => exact absurd rfl hne
  | cons h headers =>
      have hlines : ∀ x ∈ headerLine h :: headers.map headerLine,
          x ≠ [] ∧ ¬ [0x0D, 0x0A] <:+: x := by
        intro x hx
        rw [← List.map_cons] at hx
        obtain ⟨y, hy, rfl⟩ := List.mem_map.mp hx
        exact ⟨headerLine_ne_nil y, (hall y hy).line⟩
      have hfresh : Fresh kSeparator
          (headerLine h ++ headers.flatMap (fun h => kCrlf ++ headerLine h)) := by
        have := Search.fresh_lines (by decide) hlines
        rwa [List.flatMap_map] at this
      rw [parse_eq, ProtocolSerializer.serialize_eq, Search.splitFirst_append body hfresh]
      simp only [parseHeaders_lines hall]
      rfl

/-! ## Serialising what was parsed -/

/-- A parsed header fits on a line. -/
theorem headerFits_of_parseHeaders {remaining : Bytes} {headers : List (Bytes × Bytes)}
    (h : parseHeaders remaining = .ok headers) : ∀ x ∈ headers, HeaderFits x := by
  intro x hx
  obtain ⟨line, hline, rfl, hname⟩ :=
    Parts.exists_of_mem_right (parseHeaders_eq_ok_iff.mp h) hx
  have hpiece := (List.mem_filter.mp hline).1
  exact ⟨hname, Search.not_infix_of_mem_splitOn (by decide) hpiece⟩

/-- A section without lines is empty or starts with a blank line. -/
theorem exists_of_headerLines_eq_nil {headerSection : Bytes} (hne : headerSection ≠ [])
    (h : headerLines headerSection = []) :
    ∃ rest, headerSection = kCrlf ++ rest ∧ headerLines rest = [] := by
  obtain ⟨⟨line, rest⟩, hp⟩ :
      ∃ p, (splitFirst kCrlf headerSection).getD (headerSection, []) = p := ⟨_, rfl⟩
  rw [headerLines_of_ne hne hp] at h
  by_cases hline : line = []
  · subst hline
    refine ⟨rest, ?_, h⟩
    cases hs : splitFirst kCrlf headerSection with
    | none =>
        rw [hs] at hp
        cases hp
        exact absurd rfl hne
    | some p =>
        rw [hs] at hp
        cases hp
        exact (Search.splitFirst_sound hs).1
  · rw [if_neg (by simpa using hline)] at h
    cases h

/-- A section before the separator has no lines only when it is empty. -/
theorem headerLines_eq_nil_iff {headerSection : Bytes} (fresh : Fresh kSeparator headerSection) :
    headerLines headerSection = [] ↔ headerSection = [] := by
  refine ⟨fun h => ?_, fun h => h ▸ headerLines_nil⟩
  by_contra hne
  obtain ⟨rest, rfl, hrest⟩ := exists_of_headerLines_eq_nil hne h
  -- a second blank line would have ended the section
  refine fresh.1 (show kSeparator <+: kCrlf ++ rest ++ kSeparator from ?_)
  by_cases hnil : rest = []
  · subst hnil
    exact ⟨kCrlf, rfl⟩
  · obtain ⟨rest', rfl, -⟩ := exists_of_headerLines_eq_nil hnil hrest
    exact ⟨rest' ++ kSeparator, by simp [kSeparator, kCrlf]⟩

namespace ProtocolParser

theorem parse_eq_ok_iff {frame : Bytes} {message : ProtocolMessage} :
    parse frame = .ok message ↔ ∃ headerSection,
      splitFirst kSeparator frame = some (headerSection, message.body) ∧
      parseHeaders headerSection = .ok message.headers := by
  rw [parse_eq]
  cases hs : splitFirst kSeparator frame with
  | none => simp
  | some p =>
      obtain ⟨headerSection, body⟩ := p
      obtain ⟨headers, body'⟩ := message
      rw [Outcome.bind_eq_ok]
      constructor
      · rintro ⟨headers', hh, heq⟩
        cases heq
        exact ⟨headerSection, rfl, hh⟩
      · rintro ⟨headerSection', heq, hh⟩
        cases heq
        exact ⟨headers, hh, rfl⟩

/-- A frame without headers is one that starts with the separator. -/
theorem headers_eq_nil_iff {frame : Bytes} {message : ProtocolMessage}
    (accepted : parse frame = .ok message) : message.headers = [] ↔ kSeparator <+: frame := by
  obtain ⟨headerSection, hs, hh⟩ := parse_eq_ok_iff.mp accepted
  obtain ⟨rfl, fresh⟩ := Search.splitFirst_sound hs
  have hall := parseHeaders_eq_ok_iff.mp hh
  constructor
  · intro hnil
    rw [hnil, List.forall₂_nil_right_iff, headerLines_eq_nil_iff fresh] at hall
    rw [hall]
    exact ⟨message.body, rfl⟩
  · intro hp
    cases headerSection with
    | nil =>
      rw [headerLines_nil, List.forall₂_nil_left_iff] at hall
      exact hall
    | cons x a =>
        refine absurd ?_ fresh.1
        exact (Search.prefix_append_iff (by simp [kSeparator]) message.body).mp hp

/-- **Serialising what was parsed and parsing it again** gives the same message, unless the
frame has no headers: the parser accepts it, but the serializer does not write the
separator for it. -/
theorem parse_serialize_parse {frame : Bytes} {message : ProtocolMessage}
    (accepted : parse frame = .ok message) :
    parse (ProtocolSerializer.serialize message) = .ok message ↔ ¬ kSeparator <+: frame := by
  rw [← headers_eq_nil_iff accepted]
  obtain ⟨headerSection, -, hh⟩ := parse_eq_ok_iff.mp accepted
  constructor
  · intro again hnil
    obtain ⟨headerSection', hs, -⟩ := parse_eq_ok_iff.mp again
    -- the body would have to follow a separator in itself
    have hlen := congrArg List.length (Search.splitFirst_sound hs).1
    rw [ProtocolSerializer.serialize, hnil] at hlen
    simp [kSeparator, kCrlf] at hlen
    omega
  · intro hne
    exact parse_serialize hne (headerFits_of_parseHeaders hh)

/-- A header with an empty name and a value that ends in CR. -/
theorem parse_serialize_parse_crlf :
    parse (ProtocolSerializer.serialize ⟨[([], [0x0D])], lit "body"⟩) =
      .ok ⟨[([], [0x0D])], lit "body"⟩ := by
  have accepted : parse (lit ":\r\r\n\r\nbody") = .ok ⟨[([], [0x0D])], lit "body"⟩ := by
    decide +kernel
  exact (parse_serialize_parse accepted).mpr (by decide)

/-- A frame without headers is accepted, but not what is serialised from it. -/
theorem not_parse_serialize_parse :
    parse (lit "\r\n\r\nbody") = .ok ⟨[], lit "body"⟩ ∧
      parse (ProtocolSerializer.serialize ⟨[], lit "body"⟩) ≠ .ok ⟨[], lit "body"⟩ := by
  decide +kernel

end ProtocolParser
end EdgeTts
