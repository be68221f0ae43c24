import EdgeTts.Api.ProductionSynthesizer
import EdgeTts.Communication.SessionUpgrades

/-!
# The upgrade requests of the stack

Whatever is called on a `SpeechSynthesizer`, and however the calls end, the words of the random
generator go into the cookie and into the identifiers of one connect after the other, and no
connect is made but with these.  Its URL shows a server the identifier and the token, and no
header can end a line (`production_upgrades`).
-/
namespace EdgeTts

open Interaction (Prog Event CarriedOut handle_closed)
open Interaction.Prog (runs_bind)
open IdGenerator (drawn uuidBytes)

/-- The words of the generator. -/
def wordsOf (t : StackTrace) : List UInt64 :=
  t.filterMap fun
    | ⟨.rng, word⟩ => some word
    | _ => none

/-- The connects, each with its URL and its headers. -/
def connectsOf (t : StackTrace) : List (Bytes × List (Bytes × Bytes)) :=
  t.filterMap fun
    | ⟨.connect url headers, _⟩ => some (url, headers)
    | _ => none

@[simp] theorem wordsOf_append (t t' : StackTrace) :
    wordsOf (t ++ t') = wordsOf t ++ wordsOf t' := List.filterMap_append

@[simp] theorem connectsOf_append (t t' : StackTrace) :
    connectsOf (t ++ t') = connectsOf t ++ connectsOf t' := List.filterMap_append

theorem wordsOf_drawnWords (words : List UInt64) : wordsOf (drawnWords (drawn words)) = words := by
  induction words with
  | nil => rfl
  | cons word words ih => exact congrArg (word :: ·) ih

theorem connectsOf_drawnWords (words : RandomTrace) : connectsOf (drawnWords words) = [] := by
  refine List.filterMap_eq_nil_iff.mpr fun ev hev => ?_
  obtain ⟨c, reply⟩ := ev
  obtain rfl : c = .rng := mem_drawnWords hev
  rfl

/-- The words of the identifiers of one attempt. -/
structure IdWords where
  connection : UInt64 × UInt64
  request : UInt64 × UInt64

namespace IdWords
variable (ids : IdWords)

def words : List UInt64 :=
  [ids.connection.1, ids.connection.2, ids.request.1, ids.request.2]

def metadata : ConnectionMetadata where
  connectionId := Hex.hexEncodeLower (uuidBytes ids.connection.1 ids.connection.2)
  requestId := Hex.hexEncodeLower (uuidBytes ids.request.1 ids.request.2)

end IdWords

/-- The words and the connects of a run are those of the attempts. -/
structure Requested (jsonParse : Bytes → JsonParse) (headers : List (Bytes × Bytes))
    (t : StackTrace) (ids : List IdWords) (upgrades : List (Upgrade (stackSession jsonParse))) :
    Prop where
  words : wordsOf t = ids.flatMap IdWords.words
  metadata : upgrades.map Upgrade.metadata = ids.map IdWords.metadata
  connects : connectsOf t = upgrades.map fun upgrade => (upgrade.url, headers)
  config : ∀ upgrade ∈ upgrades, upgrade.provider.config = defaultEdgeServiceConfig
  clock : ∀ upgrade ∈ upgrades, ⟨.now, upgrade.now⟩ ∈ t

section
variable {jsonParse : Bytes → JsonParse} {headers : List (Bytes × Bytes)}

theorem Requested.append {t t' : StackTrace} {ids ids' : List IdWords}
    {us us' : List (Upgrade (stackSession jsonParse))} (h : Requested jsonParse headers t ids us)
    (h' : Requested jsonParse headers t' ids' us') :
    Requested jsonParse headers (t ++ t') (ids ++ ids') (us ++ us') where
  words := by rw [wordsOf_append, h.words, h'.words, List.flatMap_append]
  metadata := by rw [List.map_append, List.map_append, h.metadata, h'.metadata]
  connects := by rw [connectsOf_append, h.connects, h'.connects, List.map_append]
  config := List.forall_mem_append.mpr ⟨h.config, h'.config⟩
  clock := List.forall_mem_append.mpr ⟨fun u hu => List.mem_append_left _ (h.clock u hu),
    fun u hu => List.mem_append_right _ (h'.clock u hu)⟩

/-- A run without words or connects. -/
theorem requested_nil {t : StackTrace} (words : wordsOf t = []) (connects : connectsOf t = []) :
    Requested jsonParse headers t [] [] :=
  ⟨words, rfl, connects, nofun, nofun⟩

/-- The words of a session are those of its identifiers, and its connects have the headers. -/
theorem carriedOut_words {sessionTrace : SessionTrace} {t : StackTrace}
    (hc : CarriedOut (stackSynthesizer jsonParse headers).sessionHandler sessionTrace t) :
    (∃ ids : List IdWords, wordsOf t = ids.flatMap IdWords.words ∧
      drawnMetadata sessionTrace = ids.map IdWords.metadata) ∧
    connectsOf t = (requestedUrls sessionTrace).map fun url => (url, headers) := by
  induction hc with
  | nil => exact ⟨⟨[], rfl, rfl⟩, rfl⟩
  | @cons c r sessionTrace t₁ t first rest ih =>
      obtain ⟨⟨ids, hwords, hmetadata⟩, hconnects⟩ := ih
      cases c with
      | createForRequest =>
          obtain ⟨words, rfl, hdrawn⟩ := runs_draw.mp (runs_some_map.mp first)
          obtain ⟨v, w, v', w', rfl, hconnection, hrequest⟩ := runs_createForRequest.mp hdrawn
          refine ⟨⟨⟨(v, w), (v', w')⟩ :: ids, ?_, ?_⟩, ?_⟩
          · rw [wordsOf_append, wordsOf_drawnWords, hwords]
            rfl
          · show r :: drawnMetadata sessionTrace = _
            rw [hmetadata, List.map_cons, IdWords.metadata, ← hconnection, ← hrequest]
          · rw [connectsOf_append, connectsOf_drawnWords, hconnects]
            rfl
      | connect url =>
          obtain rfl := runs_some_perform.mp first
          exact ⟨⟨ids, hwords, hmetadata⟩, congrArg ((url, headers) :: ·) hconnects⟩
      | _ =>
          obtain rfl := runs_some_perform.mp first
          exact ⟨⟨ids, hwords, hmetadata⟩, hconnects⟩

/-- **A synthesis requests what its session asks for**, whether or not it ends. -/
theorem synthesize_requested {fuel : Nat} {config : TtsConfig} {chunks : List Bytes}
    {t : StackTrace} {r : Option (Outcome (List TtsChunk))}
    (run : ((stackSynthesizer jsonParse headers).synthesize fuel config chunks).Runs t r) :
    ∃ ids upgrades, Requested jsonParse headers t ids upgrades := by
  obtain ⟨sessionTrace, hsession, hc⟩ := synthesizer_runs.mp run
  obtain ⟨upgrades, hup⟩ := (SynthesisSession.synthesize_runs hsession).upgrades
  obtain ⟨⟨ids, hwords, hmetadata⟩, hconnects⟩ := carriedOut_words hc
  refine ⟨ids, upgrades, hwords, hup.drawn ▸ hmetadata, ?_, hup.config, fun u hu => ?_⟩
  · rw [hconnects, hup.requested, List.map_map]
    rfl
  · obtain ⟨t₂, hnow, hpart⟩ := hc.run_of_mem (hup.clock u hu)
    rw [runs_some_perform.mp hnow] at hpart
    exact hpart.subset (List.mem_singleton_self _)

end

/-- What a server reads in the URL of an attempt. -/
theorem Upgrade.readQuery_url {jsonParse : Bytes → JsonParse}
    (upgrade : Upgrade (stackSession jsonParse))
    (config : upgrade.provider.config = defaultEdgeServiceConfig)
    (id : IsId upgrade.metadata.connectionId) :
    IsToken upgrade.token ∧ readQuery upgrade.url = some [
      (lit "TrustedClientToken", defaultEdgeServiceConfig.trustedClientToken),
      (lit "ConnectionId", upgrade.metadata.connectionId), (lit "Sec-MS-GEC", upgrade.token),
      (lit "Sec-MS-GEC-Version", defaultEdgeServiceConfig.secMsGecVersion)] := by
  obtain ⟨provider, now, metadata, token, given⟩ := upgrade
  have htoken : IsToken token := by
    cases given
    exact isToken_sha256HexUpper _
  refine ⟨htoken, ?_⟩
  have hread := @SynthesisSession.readQuery_url (stackSession jsonParse) provider metadata token _
    readQuery_default id htoken (by rw [show provider.config = _ from config]; decide)
  rw [show provider.config = _ from config] at hread
  exact hread

/-- **Every upgrade request of every run.**  The words that are drawn make the cookie and then
the identifiers of one attempt after the other; the connects are these attempts, each with a
token for a time of the clock; a server reads the identifier and the token in each URL; and the
headers are the same in all, with printable values and distinct names. -/
theorem production_upgrades {jsonParse : Bytes → JsonParse} {fuel : Nat} {α : Type}
    {entry : Prog ApiCommand ApiReply α} {t : StackTrace} {r : Option α}
    (run : (production jsonParse fuel entry).Runs t r) :
    ∃ v w headers, ∃ (ids : List IdWords) (upgrades : List (Upgrade (stackSession jsonParse))),
      wordsOf t = v :: w :: ids.flatMap IdWords.words ∧
      upgrades.map Upgrade.metadata = ids.map IdWords.metadata ∧
      connectsOf t = upgrades.map (fun upgrade => (upgrade.url, headers)) ∧
      (∀ upgrade ∈ upgrades, ⟨.now, upgrade.now⟩ ∈ t ∧ IsToken upgrade.token ∧
        readQuery upgrade.url = some [
          (lit "TrustedClientToken", defaultEdgeServiceConfig.trustedClientToken),
          (lit "ConnectionId", upgrade.metadata.connectionId), (lit "Sec-MS-GEC", upgrade.token),
          (lit "Sec-MS-GEC-Version", defaultEdgeServiceConfig.secMsGecVersion)]) ∧
      (∀ header ∈ headers, Printable header.1 ∧ Printable header.2) ∧
      (headers.map Prod.fst).Nodup ∧
      (lit "Cookie", lit "muid=" ++ Hex.hexEncodeUpper (wordBytes v ++ wordBytes w) ++ lit ";") ∈
        headers := by
  obtain ⟨_, u, synth, rfl, hdraw, hentry⟩ := runs_bind.mp run
  obtain ⟨words, rfl, hmake⟩ := runs_draw.mp hdraw
  obtain ⟨headers, hheaders, rfl⟩ := runs_makeProductionSynthesizer.mp hmake
  obtain ⟨hprintable, hdistinct, v, w, rfl, hcookie⟩ :=
    runs_buildWebsocketHeaders hheaders printable_default.1 printable_default.2
  obtain ⟨ids, upgrades, hreq⟩ : ∃ ids upgrades,
      Requested jsonParse headers u ids upgrades := by
    refine handle_closed (Q := fun t => ∃ ids upgrades,
      Requested jsonParse headers t ids upgrades) ?_ ?_ ?_ hentry
    · exact ⟨[], [], requested_nil rfl rfl⟩
    · rintro t₁ t₂ ⟨ids, upgrades, h⟩ ⟨ids', upgrades', h'⟩
      exact ⟨_, _, h.append h'⟩
    · intro c t reply hrun
      cases c with
      | synthesizer config chunks => exact synthesize_requested hrun
      | _ =>
          obtain ⟨_, rfl, -⟩ := runs_map_perform.mp hrun
          exact ⟨[], [], requested_nil rfl rfl⟩
  refine ⟨v, w, headers, ids, upgrades, ?_, hreq.metadata, ?_, fun upgrade hmem => ?_,
    hprintable, hdistinct, hcookie⟩
  · rw [wordsOf_append, wordsOf_drawnWords, hreq.words]
    rfl
  · rw [connectsOf_append, connectsOf_drawnWords, hreq.connects]
    rfl
  · have hid : IsId upgrade.metadata.connectionId := by
      obtain ⟨id, -, heq⟩ := List.mem_map.mp
        (hreq.metadata ▸ List.mem_map_of_mem hmem : upgrade.metadata ∈ ids.map IdWords.metadata)
      rw [← heq]
      exact isId_uuid _ _
    obtain ⟨htoken, hquery⟩ := upgrade.readQuery_url (hreq.config upgrade hmem) hid
    exact ⟨List.mem_append_right _ (hreq.clock upgrade hmem), htoken, hquery⟩

/-- A chunk whose first connect succeeds is one attempt, at the time that the clock shows. -/
theorem production_upgrades_sample :
    let s : SpeechSynthesizer := { text := lit "Hi", config := .defaults }
    let run := (production sampleSession.jsonParse 3 (s.call .synthesize)).runIn sampleMachine
      [audioMessage]
    ∃ upgrade : Upgrade (stackSession sampleSession.jsonParse), ∃ headers,
      connectsOf run.trace = [(upgrade.url, headers)] ∧ upgrade.now = 1704067200000000000 ∧
      (readQuery upgrade.url).isSome = true := by
  intro s run
  obtain ⟨v, w, headers, ids, upgrades, -, -, hconnects, hall, -⟩ :=
    production_upgrades (Prog.runs_runIn sampleMachine
      (production sampleSession.jsonParse 3 (s.call .synthesize)) [audioMessage])
  have hone : (connectsOf run.trace).length = 1 := by decide +kernel
  rw [hconnects, List.length_map, List.length_eq_one_iff] at hone
  obtain ⟨upgrade, rfl⟩ := hone
  obtain ⟨hclock, -, hquery⟩ := hall upgrade (List.mem_singleton_self _)
  exact ⟨upgrade, headers, hconnects, sampleMachine_now hclock, by rw [hquery]; rfl⟩

end EdgeTts
