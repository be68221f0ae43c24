import EdgeTts.Communication.VoiceService
import EdgeTts.Communication.WebSocketClient
import Mathlib.Data.List.Nodup

/-!
# `communication/HttpClient.cpp`

What `HttpClient::send` makes of the answer of ixwebsocket's client.  The library's header map
keeps one entry for all spellings of a name, with the spelling of the server; the copy in
`HttpResponse::headers` tells spellings apart (`lookup_copyHeaders_iff`).
-/
namespace EdgeTts

/-- `ix::WebSocketHttpHeaders`, in order; the names differ by more than case. -/
structure IxHeaders where
  entries : List (Bytes × Bytes)
  distinct : (entries.map fun entry => entry.1.map toLower).Nodup

/-- `ix::HttpErrorCode`, as far as `send` tells its values apart. -/
inductive IxHttpErrorCode where
  | ok
  | timeout
  | urlMalformed
  | invalid
  | other
  deriving DecidableEq, Repr

/-- `ix::HttpResponse`. -/
structure IxHttpResponse where
  errorCode : IxHttpErrorCode := .ok
  statusCode : Int
  headers : IxHeaders
  body : Bytes
  errorMsg : Bytes := []

structure HttpClientOptions where
  proxy : Option Bytes := none

namespace HttpClient

/-- The loop that fills `out.headers`. -/
def copyHeaders (headers : IxHeaders) : HeaderMap :=
  headers.entries.foldl (fun out entry => out.insert entry.1 entry.2) ∅

/-- The response that `send` builds. -/
def buildResponse (resp : IxHttpResponse) : HttpResponse where
  statusCode := resp.statusCode
  headers := copyHeaders resp.headers
  body := resp.body

/-- `HttpClient::send`, where the library answers `resp`, or a null response. -/
def send (options : HttpClientOptions) (request : HttpRequest) (resp : Option IxHttpResponse) :
    Result HttpResponse :=
  match options.proxy with
  | some proxy =>
      .error ⟨.unsupported,
        lit "HTTP proxy is not supported by the ixwebsocket " ++
          lit "networking backend; remove --proxy to proceed without a proxy",
        sanitizeProxyUrl proxy⟩
  | none =>
      match resp with
      | none => .error ⟨.networkError, lit "HTTP request failed: null response", []⟩
      | some resp =>
          match resp.errorCode with
          | .ok => .ok (buildResponse resp)
          | .timeout => .error ⟨.timeout, lit "HTTP request timed out", request.url⟩
          | .urlMalformed | .invalid =>
              .error ⟨.invalidArgument, lit "Malformed URL", request.url⟩
          | .other =>
              .error ⟨.networkError,
                if resp.errorMsg.isEmpty then lit "HTTP transport error" else resp.errorMsg,
                request.url⟩

theorem send_eq_ok {options : HttpClientOptions} {request : HttpRequest} {resp : IxHttpResponse}
    (noProxy : options.proxy = none) (transported : resp.errorCode = .ok) :
    send options request (some resp) = .ok (buildResponse resp) := by
  simp only [send, noProxy, transported]

/-! ## The copied headers -/

theorem nodup_names (headers : IxHeaders) : (headers.entries.map Prod.fst).Nodup := by
  apply List.Nodup.of_map (List.map toLower)
  rw [List.map_map]
  exact headers.distinct

/-- **The copy finds a header under the server's spelling only.** -/
theorem lookup_copyHeaders_iff {headers : IxHeaders} {name value : Bytes} :
    (copyHeaders headers).lookup name = some value ↔ (name, value) ∈ headers.entries := by
  have hnodup := nodup_names headers
  rw [copyHeaders]
  generalize headers.entries = entries at hnodup ⊢
  induction entries using List.reverseRecOn with
  | nil => simp
  | append_singleton entries entry ih =>
      rw [List.map_append, List.nodup_append'] at hnodup
      obtain ⟨hentries, -, hfresh⟩ := hnodup
      rw [List.foldl_concat, List.mem_append, List.mem_singleton]
      by_cases hname : name = entry.1
      · subst hname
        rw [AList.lookup_insert, Option.some.injEq]
        constructor
        · rintro rfl
          exact Or.inr rfl
        · rintro (hmem | heq)
          · exact absurd (List.mem_map_of_mem (f := Prod.fst) hmem) (by simpa using hfresh)
          · rw [← heq]
      · rw [AList.lookup_insert_ne hname]
        refine (ih hentries).trans ?_
        constructor
        · exact Or.inl
        · rintro (hmem | rfl)
          · exact hmem
          · exact absurd rfl hname

/-- The entry of a name, under any spelling, is the only one. -/
theorem eq_of_toLower_eq {headers : IxHeaders} {entry entry' : Bytes × Bytes}
    (hmem : entry ∈ headers.entries) (hmem' : entry' ∈ headers.entries)
    (same : entry.1.map toLower = entry'.1.map toLower) : entry = entry' :=
  List.inj_on_of_nodup_map headers.distinct hmem hmem' same

/-- Where a header is spelled otherwise, the copy does not find it. -/
theorem lookup_copyHeaders_eq_none {headers : IxHeaders} {name value key : Bytes}
    (hmem : (name, value) ∈ headers.entries) (same : name.map toLower = key.map toLower)
    (hspelling : name ≠ key) : (copyHeaders headers).lookup key = none := by
  rw [Option.eq_none_iff_forall_ne_some]
  intro value' hlookup
  have heq := eq_of_toLower_eq hmem (lookup_copyHeaders_iff.mp hlookup) same
  exact hspelling (congrArg Prod.fst heq)

end HttpClient

/-- The library's own map finds a header under every spelling. -/
theorem InitResult.findHeader_of_mem {init : InitResult} {headers : IxHeaders}
    {name value key : Bytes} (given : init.headers = headers.entries)
    (hmem : (name, value) ∈ headers.entries) (same : name.map toLower = key.map toLower) :
    init.findHeader key = some value := by
  rw [findHeader, given]
  cases hfind : headers.entries.find? fun h => h.1.map toLower == key.map toLower with
  | none =>
      have hne := List.find?_eq_none.mp hfind _ hmem
      exact absurd (beq_iff_eq.mpr same) hne
  | some entry =>
      have hkey : entry.1.map toLower = key.map toLower := by simpa using List.find?_some hfind
      have heq := HttpClient.eq_of_toLower_eq hmem (List.mem_of_find?_eq_some hfind)
        (same.trans hkey.symm)
      rw [← heq]
      rfl

end EdgeTts
