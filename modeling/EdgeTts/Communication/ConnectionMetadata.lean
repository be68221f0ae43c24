import EdgeTts.Common.IdGenerator
import EdgeTts.Communication.VoiceService

/-!
# `communication/ConnectionMetadata.cpp` and `EdgeRequestHeaders.cpp`

The identifiers of a request and the headers of the two kinds of requests, all drawn from one
generator.  Nothing of what is sent here can end a header line: every byte is printable
(`runs_buildWebsocketHeaders`), whatever the generator yields.
-/
namespace EdgeTts

open Interaction (Prog Trace)
open Interaction.Prog (perform runs_bind)
open IdGenerator (drawn uuidV4WithoutHyphens random32Hex uuidBytes)

/-- `create_for_request`: the designated initializers are evaluated in order. -/
def createForRequest : Prog RandomCommand RandomReply ConnectionMetadata := do
  let connectionId ← uuidV4WithoutHyphens
  let requestId ← uuidV4WithoutHyphens
  return { connectionId, requestId }

/-- `make_muid_cookie`, where the 32 digits are drawn one word after the other. -/
def drawMuidCookie : Prog RandomCommand RandomReply Bytes := do
  let hex ← random32Hex
  return lit "muid=" ++ hex.map toUpper ++ lit ";"

/-- The fields of `EdgeServiceConfig` that go into request headers. -/
structure RequestHeadersConfig where
  origin : Bytes
  userAgent : Bytes

/-- `default_edge_service_config`. -/
def defaultRequestHeadersConfig : RequestHeadersConfig where
  origin := lit "chrome-extension://jdiccldimpdaibmpdkjnbmckianbfold"
  userAgent := lit "Mozilla/5.0 (Windows NT 10.0; Win64; x64) AppleWebKit/537.36" ++
    lit " (KHTML, like Gecko) Chrome/143.0.0.0 Safari/537.36 Edg/143.0.0.0"

/-- `build_websocket_headers`. -/
def buildWebsocketHeaders (config : RequestHeadersConfig) :
    Prog RandomCommand RandomReply (List (Bytes × Bytes)) := do
  let cookie ← drawMuidCookie
  return [
    (lit "Pragma", lit "no-cache"),
    (lit "Cache-Control", lit "no-cache"),
    (lit "Origin", config.origin),
    (lit "User-Agent", config.userAgent),
    (lit "Accept-Encoding", lit "gzip, deflate, br, zstd"),
    (lit "Accept-Language", lit "en-US,en;q=0.9"),
    (lit "Cookie", cookie)]

/-! ## Identifiers -/

/-- A lower-case digit, as it stands in an identifier. -/
theorem isHexDigit_of_mem_kLower {c : UInt8} (h : c ∈ Hex.kLower) : isHexDigit c = true := by
  have hall : Hex.kLower.all isHexDigit = true := by decide
  exact List.all_eq_true.mp hall c h

/-- **The identifiers of a request** are two UUIDs of four words. -/
theorem runs_createForRequest {t : RandomTrace} {metadata : ConnectionMetadata} :
    createForRequest.Runs t metadata ↔ ∃ v w v' w', t = drawn [v, w, v', w'] ∧
      metadata.connectionId = Hex.hexEncodeLower (uuidBytes v w) ∧
      metadata.requestId = Hex.hexEncodeLower (uuidBytes v' w') := by
  rw [createForRequest, runs_bind]
  constructor
  · rintro ⟨t₁, t₂, connectionId, rfl, hconnection, hrest⟩
    obtain ⟨t₃, t₄, requestId, rfl, hrequest, rfl, rfl⟩ := runs_bind.mp hrest
    obtain ⟨v, w, rfl, rfl⟩ := IdGenerator.runs_uuidV4WithoutHyphens.mp hconnection
    obtain ⟨v', w', rfl, rfl⟩ := IdGenerator.runs_uuidV4WithoutHyphens.mp hrequest
    exact ⟨v, w, v', w', rfl, rfl, rfl⟩
  · rintro ⟨v, w, v', w', rfl, hconnection, hrequest⟩
    obtain ⟨connectionId, requestId⟩ := metadata
    subst hconnection hrequest
    exact ⟨drawn [v, w], drawn [v', w'], _, rfl,
      IdGenerator.runs_uuidV4WithoutHyphens.mpr ⟨v, w, rfl, rfl⟩,
      runs_bind.mpr ⟨drawn [v', w'], [], _, rfl,
        IdGenerator.runs_uuidV4WithoutHyphens.mpr ⟨v', w', rfl, rfl⟩, rfl, rfl⟩⟩

/-- An identifier of a request: 32 lower-case digits. -/
def IsId (id : Bytes) : Prop := id.length = 32 ∧ ∀ c ∈ id, c ∈ Hex.kLower

theorem isId_uuid (v w : UInt64) : IsId (Hex.hexEncodeLower (uuidBytes v w)) := by
  refine ⟨?_, fun c hc => Hex.mem_encode Hex.alphabet_lower hc⟩
  rw [Hex.hexEncodeLower, Hex.length_encode, IdGenerator.length_uuidBytes]

theorem isId_of_runs {t : RandomTrace} {metadata : ConnectionMetadata}
    (h : createForRequest.Runs t metadata) :
    IsId metadata.connectionId ∧ IsId metadata.requestId := by
  obtain ⟨v, w, v', w', -, hconnection, hrequest⟩ := runs_createForRequest.mp h
  rw [hconnection, hrequest]
  exact ⟨isId_uuid v w, isId_uuid v' w'⟩

/-! ## Header values -/

/-- Every byte is a printable ASCII character, so none ends a line. -/
def Printable (s : Bytes) : Prop := ∀ c ∈ s, 0x20 ≤ c ∧ c ≤ 0x7E

instance (s : Bytes) : Decidable (Printable s) :=
  List.decidableBAll (fun c => 0x20 ≤ c ∧ c ≤ 0x7E) s

theorem printable_append {a b : Bytes} : Printable (a ++ b) ↔ Printable a ∧ Printable b :=
  List.forall_mem_append

/-- The digits of the cookie are those of the upper-case alphabet. -/
theorem map_toUpper_hex (bytes : Bytes) :
    (Hex.hexEncodeLower bytes).map toUpper = Hex.hexEncodeUpper bytes := by
  have hdigit : ∀ i < 16, toUpper (Hex.kLower.getD i 0) = Hex.kUpper.getD i 0 := by decide
  induction bytes with
  | nil => rfl
  | cons v bytes ih =>
      rw [Hex.hexEncodeLower, Hex.encode_cons, List.map_cons, List.map_cons,
        hdigit _ (Hex.high_lt v), hdigit _ (Hex.low_lt v), ← Hex.hexEncodeLower, ih]
      rfl

theorem runs_drawMuidCookie {t : RandomTrace} {cookie : Bytes} :
    drawMuidCookie.Runs t cookie ↔ ∃ v w, t = drawn [v, w] ∧
      cookie = lit "muid=" ++ Hex.hexEncodeUpper (wordBytes v ++ wordBytes w) ++ lit ";" := by
  rw [drawMuidCookie, runs_bind]
  constructor
  · rintro ⟨t₁, t₂, hex, rfl, hhex, rfl, rfl⟩
    obtain ⟨v, w, rfl, rfl⟩ := IdGenerator.runs_random32Hex.mp hhex
    exact ⟨v, w, List.append_nil _, by rw [map_toUpper_hex]⟩
  · rintro ⟨v, w, rfl, rfl⟩
    exact ⟨_, [], _, (List.append_nil _).symm, IdGenerator.runs_random32Hex.mpr ⟨v, w, rfl, rfl⟩,
      rfl, by rw [map_toUpper_hex]⟩

theorem printable_hexEncodeUpper (bytes : Bytes) : Printable (Hex.hexEncodeUpper bytes) := by
  have hall : Printable Hex.kUpper := by decide
  exact fun c hc => hall c (Hex.mem_encode Hex.alphabet_upper hc)

/-- **No header can be injected**: each has a printable name and value, and the cookie holds the
digits of two words. -/
theorem runs_buildWebsocketHeaders {config : RequestHeadersConfig} {t : RandomTrace}
    {headers : List (Bytes × Bytes)} (run : (buildWebsocketHeaders config).Runs t headers)
    (origin : Printable config.origin) (userAgent : Printable config.userAgent) :
    (∀ header ∈ headers, Printable header.1 ∧ Printable header.2) ∧
    (headers.map Prod.fst).Nodup ∧
    ∃ v w, t = drawn [v, w] ∧
      (lit "Cookie", lit "muid=" ++ Hex.hexEncodeUpper (wordBytes v ++ wordBytes w) ++ lit ";") ∈
        headers := by
  obtain ⟨t₁, t₂, cookie, rfl, hcookie, rfl, rfl⟩ := runs_bind.mp run
  obtain ⟨v, w, rfl, rfl⟩ := runs_drawMuidCookie.mp hcookie
  have hnames : ∀ name ∈ [lit "Pragma", lit "Cache-Control", lit "Origin", lit "User-Agent",
      lit "Accept-Encoding", lit "Accept-Language", lit "Cookie", lit "no-cache",
      lit "gzip, deflate, br, zstd", lit "en-US,en;q=0.9", lit "muid=", lit ";"],
      Printable name := by decide
  have hdistinct : [lit "Pragma", lit "Cache-Control", lit "Origin", lit "User-Agent",
      lit "Accept-Encoding", lit "Accept-Language", lit "Cookie"].Nodup := by decide
  have hhex := printable_hexEncodeUpper (wordBytes v ++ wordBytes w)
  refine ⟨?_, hdistinct, v, w, List.append_nil _, by simp⟩
  simp only [List.forall_mem_cons, printable_append] at hnames ⊢
  obtain ⟨h₁, h₂, h₃, h₄, h₅, h₆, h₇, h₈, h₉, h₁₀, h₁₁, h₁₂, -⟩ := hnames
  exact ⟨⟨h₁, h₈⟩, ⟨h₂, h₈⟩, ⟨h₃, origin⟩, ⟨h₄, userAgent⟩, ⟨h₅, h₉⟩, ⟨h₆, h₁₀⟩,
    ⟨h₇, ⟨h₁₁, hhex⟩, h₁₂⟩, nofun⟩

theorem printable_default : Printable defaultRequestHeadersConfig.origin ∧
    Printable defaultRequestHeadersConfig.userAgent := by
  decide +kernel

end EdgeTts
