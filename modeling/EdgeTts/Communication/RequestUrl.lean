import EdgeTts.Common.Sha256
import EdgeTts.Communication.ClockSkew
import EdgeTts.Communication.ConnectionMetadata

/-!
# The URL of a connection

`SynthesisSession::synthesize` appends its parameters to an endpoint that has one already.
`readQuery` is what a server makes of a URL, and reads back each appended parameter
(`readQuery_append`).
-/
namespace EdgeTts

open Search (splitFirst splitOn)

/-- The parameters of a URL: what follows its first `?`, cut at every `&`, and each part cut at
its first `=`. -/
def readQuery (url : Bytes) : Option (List (Bytes × Bytes)) :=
  (splitFirst [0x3F] url).bind fun p => (splitOn [0x26] p.2).mapM (splitFirst [0x3D])

/-- What a parameter is written with cannot end it. -/
structure ParamFits (name value : Bytes) : Prop where
  name_amp : (0x26 : UInt8) ∉ name
  name_eq : (0x3D : UInt8) ∉ name
  value_amp : (0x26 : UInt8) ∉ value

/-- **A parameter that is appended is read back**, after those that were there. -/
theorem readQuery_append {url name value : Bytes} {params : List (Bytes × Bytes)}
    (h : readQuery url = some params) (fits : ParamFits name value) :
    readQuery (url ++ ([0x26] ++ name ++ [0x3D] ++ value)) = some (params ++ [(name, value)]) := by
  obtain ⟨⟨base, query⟩, hsplit, hparams⟩ := Option.bind_eq_some_iff.mp h
  obtain ⟨rfl, hbase⟩ := Search.splitFirst_sound hsplit
  have hlast : splitOn [0x26] (name ++ [0x3D] ++ value) = [name ++ [0x3D] ++ value] := by
    refine Search.splitOn_eq_singleton fun hi => ?_
    have hmem : (0x26 : UInt8) ∈ name ++ [0x3D] ++ value := hi.subset (List.mem_singleton_self _)
    simp [fits.name_amp, fits.value_amp] at hmem
  have hurl : base ++ [0x3F] ++ query ++ ([0x26] ++ name ++ [0x3D] ++ value) =
      base ++ [0x3F] ++ (query ++ [0x26] ++ (name ++ [0x3D] ++ value)) := by
    simp only [List.append_assoc]
  have hread : splitFirst [0x3D] (name ++ [0x3D] ++ value) = some (name, value) :=
    Search.splitFirst_append value (Search.fresh_of_not_mem fits.name_eq)
  rw [readQuery, hurl, Search.splitFirst_append _ hbase, Option.bind_some,
    Search.splitOn_singleton_append, hlast, List.mapM_append, hparams, List.mapM_cons, hread]
  rfl

/-! ## The token -/

/-- An upper-case digest: 64 digits. -/
def IsToken (token : Bytes) : Prop := token.length = 64 ∧ ∀ c ∈ token, c ∈ Hex.kUpper

theorem isToken_sha256HexUpper (data : Bytes) : IsToken (Sha256.sha256HexUpper data) := by
  rw [Sha256.sha256HexUpper_eq]
  refine ⟨?_, fun c hc => Hex.mem_encode Hex.alphabet_upper hc⟩
  rw [Hex.hexEncodeUpper, Hex.length_encode, Sha256.length_sha256Raw]

/-! ## The URL of an attempt -/

/-- **The URL of an attempt is read back**: the parameters of the endpoint, and then the
identifier, the token and its version. -/
theorem SynthesisSession.readQuery_url {session : SynthesisSession} {provider : EdgeTokenProvider}
    {metadata : ConnectionMetadata} {gec : Bytes} {params : List (Bytes × Bytes)}
    (endpoint : readQuery session.config.websocketEndpoint = some params)
    (id : IsId metadata.connectionId) (token : IsToken gec)
    (version : (0x26 : UInt8) ∉ provider.config.secMsGecVersion) :
    readQuery (session.url provider metadata gec) = some (params ++ [
      (lit "ConnectionId", metadata.connectionId), (lit "Sec-MS-GEC", gec),
      (lit "Sec-MS-GEC-Version", provider.config.secMsGecVersion)]) := by
  have hnames : ∀ name ∈ [lit "ConnectionId", lit "Sec-MS-GEC", lit "Sec-MS-GEC-Version"],
      (0x26 : UInt8) ∉ name ∧ (0x3D : UInt8) ∉ name := by decide
  simp only [List.forall_mem_cons] at hnames
  obtain ⟨h₁, h₂, h₃, -⟩ := hnames
  have hdigits : (0x26 : UInt8) ∉ Hex.kLower ∧ (0x26 : UInt8) ∉ Hex.kUpper := by decide
  have hread := readQuery_append (readQuery_append (readQuery_append endpoint
    ⟨h₁.1, h₁.2, fun hm => hdigits.1 (id.2 _ hm)⟩) ⟨h₂.1, h₂.2, fun hm => hdigits.2 (token.2 _ hm)⟩)
    ⟨h₃.1, h₃.2, version⟩
  have hcut : lit "&ConnectionId=" = [0x26] ++ lit "ConnectionId" ++ [0x3D] ∧
      lit "&Sec-MS-GEC=" = [0x26] ++ lit "Sec-MS-GEC" ++ [0x3D] ∧
      lit "&Sec-MS-GEC-Version=" = [0x26] ++ lit "Sec-MS-GEC-Version" ++ [0x3D] := by decide
  rw [url, hcut.1, hcut.2.1, hcut.2.2]
  simpa only [List.append_assoc, List.cons_append, List.nil_append,
    EdgeTokenProvider.secMsGecVersion] using hread

/-- The endpoint of the default configuration. -/
theorem readQuery_default : readQuery defaultEdgeServiceConfig.websocketEndpoint =
    some [(lit "TrustedClientToken", defaultEdgeServiceConfig.trustedClientToken)] := by
  decide +kernel

end EdgeTts
