import EdgeTts.Api.UpgradeRequests
import EdgeTts.Communication.HttpDate
import EdgeTts.Communication.Refusals

/-!
# A service with a clock of its own

A service grants the upgrades with a token of its five minutes, and refuses others with a 403 and
the date of its clock.  After the first refusal of a call the provider runs behind that clock, by
no more than the second that a date leaves out and the time that the answers take.  So there is a
further refusal only if the five minutes of the service have changed within that time
(`skew_recovers`), however far the two clocks are apart.
-/
namespace EdgeTts

open Interaction (Event Prog Environment CarriedOut Allowed allowed_append append_eq_append_cons
  append_cons_eq_singleton)
open Calendar (Civil)
open EdgeTokenProvider (serverClock secMsGec_correctedTo)

/-! ## The five minutes of a clock -/

/-- Without a skew the five minutes are those of the clock. -/
theorem EdgeTokenProvider.windowOf_fresh {p : EdgeTokenProvider} (h : p.clockSkewSeconds = 0)
    (now : TimePoint) : p.windowOf now = now / 300000000000 + 38814912 := by
  have hsum : (secondsSinceEpoch now + p.clockSkewSeconds + 11644473600) / 300 =
      ((now + 38814912 * 300000000000 : Int) : Rat) / ((300000000000 : Nat) : Rat) := by
    rw [h, secondsSinceEpoch]
    push_cast
    ring
  rw [windowOf, hsum, Rat.floor_intCast_div_natCast]
  omega

/-- Where a clock that runs behind another one shows other five minutes, those of the other one
have changed meanwhile. -/
theorem emod_lt_of_tokens {p : EdgeTokenProvider} (fresh : p.clockSkewSeconds = 0)
    {sha256HexUpper : Bytes → Bytes} {now server : Int} (nonneg : 0 ≤ now) (behind : now ≤ server)
    (differ : p.secMsGec sha256HexUpper now ≠ p.secMsGec sha256HexUpper server) :
    server % 300000000000 < server - now := by
  have hpos : ∀ {time : Int}, 0 ≤ time →
      0 ≤ secondsSinceEpoch time + p.clockSkewSeconds + 11644473600 := by
    intro time htime
    have : (0 : Rat) ≤ time := by exact_mod_cast htime
    rw [fresh, secondsSinceEpoch]
    positivity
  have hwindow : p.windowOf now ≠ p.windowOf server := by
    intro heq
    refine differ ?_
    rw [EdgeTokenProvider.secMsGec_eq _ (hpos nonneg),
      EdgeTokenProvider.secMsGec_eq _ (hpos (nonneg.trans behind)), heq]
  rw [EdgeTokenProvider.windowOf_fresh fresh, EdgeTokenProvider.windowOf_fresh fresh] at hwindow
  omega

/-! ## The refusals of a call -/

/-- A 403. -/
def StackRefusal : Event StackCommand StackReply → Prop
  | ⟨.connect _ _, .error e⟩ => e.code = .drmError
  | _ => False

instance : DecidablePred StackRefusal
  | ⟨.connect _ _, .error e⟩ => inferInstanceAs (Decidable (e.code = .drmError))
  | ⟨.connect _ _, .ok _⟩ | ⟨.rng, _⟩ | ⟨.now, _⟩ | ⟨.isCancelled, _⟩ | ⟨.cancel, _⟩
  | ⟨.sendText _, _⟩ | ⟨.receive, _⟩ | ⟨.close, _⟩ | ⟨.onAudio _, _⟩ | ⟨.onBoundary _, _⟩
  | ⟨.onComplete, _⟩ | ⟨.onError _, _⟩ | ⟨.add _ _, _⟩ | ⟨.writeBinary _ _, _⟩
  | ⟨.writeTextUtf8 _ _, _⟩ => isFalse id

theorem StackRefusal.eq_connect {ev : Event StackCommand StackReply} (h : StackRefusal ev) :
    ∃ url headers e, ev = ⟨.connect url headers, .error e⟩ ∧ e.code = .drmError := by
  unfold StackRefusal at h
  split at h
  · exact ⟨_, _, _, rfl, h⟩
  · exact h.elim

/-- The provider before any correction. -/
abbrev freshProvider : EdgeTokenProvider := { config := defaultEdgeServiceConfig }

/-- What a server reads as the token of an upgrade. -/
def tokenOf (url : Bytes) : Option Bytes := do
  let params ← readQuery url
  params.lookup (lit "Sec-MS-GEC")

/-- After a refusal, the token in the URL of a connect is that of a clock which has read the date
of the last refusal where the own one has read `now`, and has run along with the own one. -/
def Corrected (before : StackTrace) (url : Bytes) : Prop :=
  ∃ a url' headers e now b later serverTs token,
    before = a ++ ⟨.connect url' headers, .error e⟩ :: ⟨.now, now⟩ :: (b ++ [⟨.now, later⟩]) ∧
    e.code = .drmError ∧ parseHttpDate e.context = some serverTs ∧ tokenOf url = some token ∧
    freshProvider.secMsGec Sha256.sha256HexUpper (serverClock serverTs now later) = .ok token

theorem Corrected.prepend {before : StackTrace} {url : Bytes} (h : Corrected before url)
    (first : StackTrace) : Corrected (first ++ before) url := by
  obtain ⟨a, url', headers, e, now, b, later, serverTs, token, rfl, h⟩ := h
  exact ⟨first ++ a, url', headers, e, now, b, later, serverTs, token,
    (List.append_assoc _ _ _).symm, h⟩

section
variable {jsonParse : Bytes → JsonParse} {headers : List (Bytes × Bytes)} {fuel : Nat}

/-- A refusal of the stack is one of its session. -/
theorem refusal_of_stack {sessionTrace : SessionTrace} {t : StackTrace}
    (hc : CarriedOut (stackSynthesizer jsonParse headers).sessionHandler sessionTrace t)
    {ev : Event StackCommand StackReply} (hev : ev ∈ t) (refused : StackRefusal ev) :
    ∃ ev' ∈ sessionTrace, Refusal ev' := by
  obtain ⟨url, headers', e, rfl, refused⟩ := refused.eq_connect
  obtain ⟨t₁, t₂, rfl⟩ := List.append_of_mem hev
  obtain ⟨s₁, s₂, c, r, _, _, _, _, rfl, -, -, -, hstep, -⟩ := hc.around
  obtain ⟨heq, -, -⟩ := sessionHandler_event rfl hstep
  rw [heq]
  exact ⟨_, List.mem_append_right _ (.head _), refused⟩

theorem not_refusal_drawnWords {words : RandomTrace} :
    ∀ ev ∈ drawnWords words, ¬ StackRefusal ev := by
  rintro ⟨c, reply⟩ hev
  obtain rfl : c = .rng := mem_drawnWords hev
  exact id

/-- A server reads the token of an upgrade. -/
theorem tokenOf_url (upgrade : Upgrade (stackSession jsonParse))
    (config : upgrade.provider.config = defaultEdgeServiceConfig)
    (id : IsId upgrade.metadata.connectionId) : tokenOf upgrade.url = some upgrade.token := by
  rw [tokenOf, (upgrade.readQuery_url config id).2]
  rfl

/-- **In a session**, a connect after a refusal. -/
theorem synthesizer_corrected {config : TtsConfig} {chunks : List Bytes} {before after : StackTrace}
    {url : Bytes} {headers' : List (Bytes × Bytes)} {reply : Result Unit}
    {r : Option (Outcome (List TtsChunk))}
    (run : ((stackSynthesizer jsonParse headers).synthesize fuel config chunks).Runs
      (before ++ ⟨.connect url headers', reply⟩ :: after) r)
    (dated : ∀ url₁ headers₁ e, ⟨.connect url₁ headers₁, .error e⟩ ∈
      before ++ ⟨.connect url headers', reply⟩ :: after → e.code = .drmError →
      ∃ serverTs, parseHttpDate e.context = some serverTs)
    (refused : ∃ ev ∈ before, StackRefusal ev) : Corrected before url := by
  obtain ⟨sessionTrace, hrun, hc⟩ := synthesizer_runs.mp run
  have hdated : Dated sessionTrace := by
    intro url' e hmem
    obtain ⟨t, ht, hpart⟩ := hc.run_of_mem hmem
    rw [runs_some_perform.mp ht] at hpart
    exact dated url' headers e (hpart.subset (List.mem_singleton_self _))
  have hallowed := (SynthesisSession.synthesize_runs hrun).asked (h := []) (.never nofun) hdated
  obtain ⟨s₁, s₂, c, r', p₁, p₂, q₁, q₂, rfl, rfl, rfl, hbefore, hstep, -⟩ := hc.around
  obtain ⟨heq, rfl, rfl⟩ := sessionHandler_event rfl hstep
  rw [heq] at hallowed
  obtain ⟨earlier, metadata, later, provider, token, hs₁, hlast, given, rfl⟩ := hallowed.before
  rw [List.nil_append] at hs₁
  subst hs₁
  -- the attempt itself: its identifiers, and a time of the clock
  obtain ⟨u, v, rfl, hu, hv⟩ := hbefore.split
  cases hv with | @cons _ _ _ v₁ _ hmetadata hnow =>
  cases hnow with | @cons _ _ _ v₂ _ hnow hnil =>
  obtain rfl := Interaction.carriedOut_nil.mp hnil
  obtain rfl := runs_some_perform.mp hnow
  obtain ⟨words, rfl, hdrawn⟩ := runs_draw.mp (runs_some_map.mp hmetadata)
  have hconfig : provider.config = defaultEdgeServiceConfig := by cases hlast <;> rfl
  have htoken : tokenOf (SynthesisSession.url (stackSession jsonParse) provider metadata token) =
      some token :=
    tokenOf_url ⟨provider, later, metadata, token, given⟩ hconfig (isId_of_runs hdrawn).1
  cases hlast with
  | never accepted =>
      obtain ⟨ev, hmem, hrefusal⟩ := refused
      have hearlier : ev ∈ u := by
        simp only [List.append_nil, List.mem_append, List.mem_singleton] at hmem
        rcases hmem with hmem | hmem | rfl
        · exact hmem
        · exact absurd hrefusal (not_refusal_drawnWords ev hmem)
        · exact hrefusal.elim
      obtain ⟨ev', hmem', hrefusal'⟩ := refusal_of_stack hu hearlier hrefusal
      exact absurd hrefusal' (accepted ev' hmem')
  | @corrected a url' e now b serverTs hcode date accepted =>
      obtain ⟨u₁, u₂, rfl, hu₁, hu₂⟩ := hu.split
      cases hu₂ with | @cons _ _ _ w₁ _ hconnect hu₂ =>
      cases hu₂ with | @cons _ _ _ w₂ w₃ hnow' hu₂ =>
      obtain rfl := runs_some_perform.mp hconnect
      obtain rfl := runs_some_perform.mp hnow'
      rw [secMsGec_correctedTo] at given
      refine ⟨u₁, url', headers, e, now, w₃ ++ drawnWords words, later, serverTs, token, ?_, hcode,
        date, htoken, given⟩
      simp

end

/-- The injected synthesizer is called once at most. -/
theorem call_guarded {s s' : SpeechSynthesizer} {c : Call} {t : ApiTrace} {returned : Returned}
    (run : (s.call c).Runs t (s', returned)) : Allowed (SynthesizerGuard s) [] t := by
  by_cases hc : c = .cancel
  · subst hc
    rw [(cancel_runs run).2]
    exact ⟨nofun, trivial⟩
  · rcases consuming_call_runs (Call.consumes_iff.mpr hc) run with
      ⟨-, -, rfl, -⟩ | ⟨-, -, t₁, t₂, synthesis, rfl, hpipeline, hafter⟩
    · trivial
    · exact allowed_append.mpr ⟨hpipeline.allowed nofun, allowed_of_notSynthesizer hafter _⟩

/-- **In a call**, a connect after a refusal. -/
theorem call_corrected {jsonParse : Bytes → JsonParse} {fuel : Nat} {s s' : SpeechSynthesizer}
    {c : Call} {before after : StackTrace} {returned : Returned} {url : Bytes}
    {headers : List (Bytes × Bytes)} {reply : Result Unit}
    (run : (production jsonParse fuel (s.call c)).Runs
      (before ++ ⟨.connect url headers, reply⟩ :: after) (some (s', returned)))
    (dated : ∀ url' headers' e, ⟨.connect url' headers', .error e⟩ ∈
      before ++ ⟨.connect url headers, reply⟩ :: after → e.code = .drmError →
      ∃ serverTs, parseHttpDate e.context = some serverTs)
    (refused : ∃ ev ∈ before, StackRefusal ev) : Corrected before url := by
  obtain ⟨words, synth, u, apiTrace, heq, hmake, hcall, hc⟩ := stack_runs.mp run
  obtain ⟨headers', -, rfl⟩ := runs_makeProductionSynthesizer.mp hmake
  rcases append_eq_append_cons heq.symm with ⟨before', rfl, rfl⟩ | ⟨after', hconnect, -⟩
  · obtain ⟨x₁, x₂, c', r', b₁, b₂, a₁, a₂, rfl, rfl, rfl, hfirst, hstep, -⟩ := hc.around
    cases c' with
    | synthesizer config chunks =>
        have hguard := ((call_guarded hcall).before config chunks rfl).2.1
        -- outside the session nothing is refused
        have hquiet : ∀ ev ∈ b₁, ¬ StackRefusal ev := by
          refine hfirst.forall_mem fun c'' r'' t ht hmem => ?_
          cases c'' with
          | synthesizer config' chunks' => exact absurd rfl (hguard _ hmem config' chunks')
          | _ =>
              rw [runs_some_perform.mp ht]
              exact List.forall_mem_singleton.mpr id
        obtain ⟨ev, hev, hrefusal⟩ := refused
        have hmem : ev ∈ b₂ := by
          rcases List.mem_append.mp hev with hev | hev
          · exact absurd hrefusal (not_refusal_drawnWords ev hev)
          · exact (List.mem_append.mp hev).resolve_left fun hev => hquiet ev hev hrefusal
        rw [← List.append_assoc]
        refine (synthesizer_corrected hstep ?_ ⟨ev, hmem, hrefusal⟩).prepend _
        intro url' headers'' e hev
        refine dated url' headers'' e ?_
        simp only [List.mem_append, List.mem_cons] at hev ⊢
        tauto
    | _ => cases (append_cons_eq_singleton (runs_some_perform.mp hstep)).2.2
  · have hmem : ⟨.connect url headers, reply⟩ ∈ drawnWords words := by
      rw [hconnect]
      simp
    cases mem_drawnWords hmem

/-! ## Instants -/

/-- A trace with the instant of each event, on the clock of the caller. -/
abbrev TimedTrace := List (Int × Event StackCommand StackReply)

def isUpgrade : Event StackCommand StackReply → Bool
  | ⟨.connect _ _, _⟩ => true
  | _ => false

/-- Time passes, and the clock shows it.  What comes right before a connect or right after it is
no further away than `delay`. -/
structure Clocked (delay : Int) (timed : TimedTrace) : Prop where
  ordered : timed.Pairwise fun a b => a.1 ≤ b.1
  shown : ∀ instant now, (instant, ⟨.now, now⟩) ∈ timed → instant = now
  prompt : timed.IsChain fun a b =>
    isUpgrade a.2 = true ∨ isUpgrade b.2 = true → b.1 ≤ a.1 + delay

/-- The instants of a connect, of what comes right after it, and of a later connect and what comes
right before that. -/
theorem Clocked.instants {delay : Int} {first between after : TimedTrace}
    {refusedAt correctedAt askedAt instant : Int} {url₁ url : Bytes}
    {headers₁ headers : List (Bytes × Bytes)} {reply₁ reply : Result Unit}
    {ev₂ ev₃ : Event StackCommand StackReply}
    (h : Clocked delay ((first ++ (refusedAt, ⟨.connect url₁ headers₁, reply₁⟩) ::
      (correctedAt, ev₂) :: (between ++ [(askedAt, ev₃)])) ++
      (instant, ⟨.connect url headers, reply⟩) :: after)) :
    refusedAt ≤ correctedAt ∧ correctedAt ≤ refusedAt + delay ∧ correctedAt ≤ askedAt ∧
      askedAt ≤ instant ∧ instant ≤ askedAt + delay := by
  obtain ⟨hleft, -, hacross⟩ := List.pairwise_append.mp h.ordered
  obtain ⟨hfrom, hrest⟩ := List.pairwise_cons.mp (List.pairwise_append.mp hleft).2.1
  obtain ⟨hchain, -, hmeet⟩ := List.isChain_append.mp h.prompt
  refine ⟨hfrom _ (.head _), ?_, ?_, ?_, ?_⟩
  · exact (List.isChain_cons_cons.mp (List.isChain_append.mp hchain).2.1).1 (.inl rfl)
  · exact (List.pairwise_cons.mp hrest).1 (askedAt, ev₃) (by simp)
  · exact hacross (askedAt, ev₃) (by simp) _ (.head _)
  · exact hmeet (askedAt, ev₃) (by simp [List.getLast?_cons]) _ rfl (.inr rfl)

/-- A refusal where the clock of the service reads `serverTime`: the token is not that of its five
minutes, and the date is that of its clock. -/
structure Justified (serverTime : Int) (url : Bytes) (e : Error) : Prop where
  date : ∃ wkd ∈ dayNames, ∃ civil : Civil, 1970 ≤ civil.year ∧ civil.year < 2 ^ 31 ∧
    e.context = httpDate wkd civil ∧ (civil.seconds 1970 : Int) = serverTime / 1000000000
  token : ∀ token, tokenOf url = some token →
    freshProvider.secMsGec Sha256.sha256HexUpper serverTime ≠ .ok token

/-- The service has a clock that is `offset` ahead, and refuses with a reason. -/
def Truthful (offset : Int) (timed : TimedTrace) : Prop :=
  ∀ instant url headers e, (instant, ⟨.connect url headers, .error e⟩) ∈ timed →
    e.code = .drmError → Justified (instant + offset) url e

theorem Justified.parsed {serverTime : Int} {url : Bytes} {e : Error}
    (h : Justified serverTime url e) :
    parseHttpDate e.context = some (serverTime / 1000000000) := by
  obtain ⟨wkd, hwkd, civil, hfirst, hyear, hcontext, hseconds⟩ := h.date
  rw [hcontext, parseHttpDate_httpDate hwkd hfirst hyear, hseconds]

theorem Justified.nonneg {serverTime : Int} {url : Bytes} {e : Error}
    (h : Justified serverTime url e) : 0 ≤ serverTime := by
  obtain ⟨wkd, hwkd, civil, hfirst, hyear, hcontext, hseconds⟩ := h.date
  omega

/-- **A second refusal in one call** comes within two answers and a second after the five minutes
of the service have changed, whatever the difference of the clocks. -/
theorem skew_recovers {jsonParse : Bytes → JsonParse} {fuel : Nat} {s s' : SpeechSynthesizer}
    {c : Call} {returned : Returned} {delay offset : Int} {before after : TimedTrace}
    {instant : Int} {url : Bytes} {headers : List (Bytes × Bytes)} {e : Error}
    (run : (production jsonParse fuel (s.call c)).Runs
      ((before ++ (instant, ⟨.connect url headers, .error e⟩) :: after).map Prod.snd)
      (some (s', returned)))
    (clocked : Clocked delay (before ++ (instant, ⟨.connect url headers, .error e⟩) :: after))
    (truthful : Truthful offset (before ++ (instant, ⟨.connect url headers, .error e⟩) :: after))
    (refused : e.code = .drmError) (again : ∃ earlier ∈ before, StackRefusal earlier.2) :
    (instant + offset) % 300000000000 < 2 * delay + 1000000000 := by
  have dated : ∀ url' headers' e', ⟨.connect url' headers', .error e'⟩ ∈
      (before ++ (instant, ⟨.connect url headers, .error e⟩) :: after).map Prod.snd →
      e'.code = .drmError → ∃ serverTs, parseHttpDate e'.context = some serverTs := by
    intro url' headers' e' hmem hcode
    obtain ⟨⟨instant', ev⟩, hmem, rfl⟩ := List.mem_map.mp hmem
    exact ⟨_, (truthful _ _ _ _ hmem hcode).parsed⟩
  rw [List.map_append, List.map_cons] at run dated
  obtain ⟨earlier, hearlier, hrefusal⟩ := again
  obtain ⟨a, url₁, headers₁, e₁, now, b, later, serverTs, token, hbefore, hcode, hdate, htoken,
    given⟩ := call_corrected run dated ⟨_, List.mem_map_of_mem hearlier, hrefusal⟩
  -- the last refusal, the correction, and the token of the attempt
  obtain ⟨l₁, l₂, rfl, -, hl₂⟩ := List.map_eq_append_iff.mp hbefore
  obtain ⟨⟨refusedAt, ev₁⟩, l₃, rfl, rfl, hl₃⟩ := List.map_eq_cons_iff.mp hl₂
  obtain ⟨⟨correctedAt, ev₂⟩, l₄, rfl, rfl, hl₄⟩ := List.map_eq_cons_iff.mp hl₃
  obtain ⟨l₅, l₆, rfl, -, hl₆⟩ := List.map_eq_append_iff.mp hl₄
  obtain ⟨⟨askedAt, ev₃⟩, l₇, rfl, rfl, hl₇⟩ := List.map_eq_cons_iff.mp hl₆
  obtain rfl := List.map_eq_nil_iff.mp hl₇
  obtain rfl : correctedAt = now := clocked.shown _ _ (by simp)
  obtain rfl : askedAt = later := clocked.shown _ _ (by simp)
  obtain ⟨hnow, hanswered, hlater, hinstant, hjudged⟩ := clocked.instants
  -- the date of the refusal leaves out less than a second
  have hfirst := truthful refusedAt url₁ headers₁ e₁ (by simp) hcode
  have hlast := truthful instant url headers e (by simp) refused
  have hserverTs : serverTs = (refusedAt + offset) / 1000000000 :=
    Option.some.inj (hdate.symm.trans hfirst.parsed)
  have hnonneg := hfirst.nonneg
  have hdiffer :
      freshProvider.secMsGec Sha256.sha256HexUpper (serverClock serverTs correctedAt askedAt) ≠
        freshProvider.secMsGec Sha256.sha256HexUpper (instant + offset) := by
    rw [given]
    exact (hlast.token token htoken).symm
  have hstart : 0 ≤ serverClock serverTs correctedAt askedAt := by
    show (0 : Int) ≤ serverTs * 1000000000 + (askedAt - correctedAt)
    omega
  have hbehind : serverClock serverTs correctedAt askedAt ≤ instant + offset := by
    show serverTs * 1000000000 + (askedAt - correctedAt) ≤ instant + offset
    omega
  have hlt : (instant + offset) % 300000000000 <
      instant + offset - (serverTs * 1000000000 + (askedAt - correctedAt)) :=
    emod_lt_of_tokens (p := freshProvider) rfl hstart hbehind hdiffer
  omega

/-! ## A service that is ten minutes ahead -/

/-- Instants that are shown. -/
def showsInstant : Int × Event StackCommand StackReply → Bool
  | (instant, ⟨.now, now⟩) => decide (instant = now)
  | _ => true

/-- Refusals with a reason, dated at one of the given times on a Monday. -/
def refusedRightly (offset : Int) (times : List Civil) :
    Int × Event StackCommand StackReply → Bool
  | (instant, ⟨.connect url _, .error e⟩) =>
      (times.any fun civil => decide (1970 ≤ civil.year ∧ civil.year < 2 ^ 31 ∧
        e.context = httpDate (lit "Mon") civil ∧
        (civil.seconds 1970 : Int) = (instant + offset) / 1000000000)) &&
      (tokenOf url).all fun token =>
        decide (freshProvider.secMsGec Sha256.sha256HexUpper (instant + offset) ≠ .ok token)
  | _ => true

theorem truthful_of_all {offset : Int} (times : List Civil) {timed : TimedTrace}
    (h : timed.all (refusedRightly offset times) = true) : Truthful offset timed := by
  intro instant url headers e hmem _
  have hright := List.all_eq_true.mp h _ hmem
  simp only [refusedRightly, Bool.and_eq_true, List.any_eq_true, Option.all_eq_true,
    decide_eq_true_eq] at hright
  obtain ⟨⟨civil, -, hdate⟩, htoken⟩ := hright
  exact ⟨⟨lit "Mon", by decide, civil, hdate⟩, htoken⟩

theorem clocked_of_all {delay : Int} {timed : TimedTrace}
    (ordered : (timed.map Prod.fst).Pairwise (· ≤ ·)) (shown : timed.all showsInstant = true)
    (prompt : timed.IsChain fun a b =>
      isUpgrade a.2 = true ∨ isUpgrade b.2 = true → b.1 ≤ a.1 + delay) : Clocked delay timed where
  ordered := List.pairwise_map.mp ordered
  shown := fun _ _ hmem => of_decide_eq_true (List.all_eq_true.mp shown _ hmem)
  prompt := prompt

/-- Nine minutes and 59 seconds after a year has begun, and a second later. -/
def newYear : List Civil :=
  [⟨2024, 0, 1, 0, 9, 59, by decide, by decide, by decide, by decide, by decide, by decide⟩,
    ⟨2024, 0, 1, 0, 10, 0, by decide, by decide, by decide, by decide, by decide, by decide⟩]

/-- A service that is ten minutes ahead and refuses; the state counts the readings of the clock,
and between the second and the third one the service gets to its next five minutes. -/
def refusingMachine : Environment StackCommand StackReply Nat
  | .now, n => (if n < 2 then 1704067199900000000 else 1704067200100000000, n + 1)
  | .connect _ _, n =>
      (.error ⟨.drmError, [], ((newYear[n / 2]?).map (httpDate (lit "Mon"))).getD []⟩, n)
  | c, n => ((sampleMachine c []).1, n)

/-- Both attempts are refused, the second one as the five minutes have just changed. -/
theorem skew_recovers_sample :
    let s : SpeechSynthesizer := { text := lit "Hi", config := .defaults }
    let run := (production sampleSession.jsonParse 1 (s.call .synthesize)).runIn refusingMachine 0
    let timed : TimedTrace := (run.trace.take 11).map (fun ev => (1704067199900000000, ev)) ++
      (run.trace.drop 11).map (fun ev => (1704067200100000000, ev))
    ∃ before url headers e,
      timed = before ++ [(1704067200100000000, ⟨.connect url headers, .error e⟩)] ∧
      (∃ earlier ∈ before, StackRefusal earlier.2) ∧
      ((1704067200100000000 : Int) + 600000000000) % 300000000000 < 2 * 0 + 1000000000 := by
  intro s run timed
  have hlast : timed.getLast?.any (fun p => decide (p.1 = 1704067200100000000) &&
      decide (StackRefusal p.2)) = true := by decide +kernel
  have hearlier : timed.dropLast.any (fun p => decide (StackRefusal p.2)) = true := by
    decide +kernel
  have hclocked : Clocked 0 timed :=
    clocked_of_all (by decide +kernel) (by decide +kernel) (by decide +kernel)
  have htruthful : Truthful 600000000000 timed :=
    truthful_of_all newYear (by decide +kernel)
  have hsome : run.result.isSome = true := by decide +kernel
  obtain ⟨⟨instant, ev⟩, hget, hev⟩ := (Option.any_eq_true _ _).mp hlast
  simp only [Bool.and_eq_true, decide_eq_true_eq] at hev
  obtain ⟨rfl, hrefusal⟩ := hev
  obtain ⟨url, headers, e, rfl, hcode⟩ := hrefusal.eq_connect
  obtain ⟨before, htimed⟩ := List.getLast?_eq_some_iff.mp hget
  rw [htimed, List.dropLast_concat] at hearlier
  obtain ⟨earlier, hmem, hagain⟩ := List.any_eq_true.mp hearlier
  obtain ⟨⟨s', returned⟩, hresult⟩ := Option.isSome_iff_exists.mp hsome
  have hrun : (production sampleSession.jsonParse 1 (s.call .synthesize)).Runs
      (timed.map Prod.snd) (some (s', returned)) := by
    have hsnd : timed.map Prod.snd = run.trace := by
      simp only [timed, List.map_append, List.map_map, Function.comp_def, List.map_id',
        List.take_append_drop]
    rw [hsnd, ← hresult]
    exact Prog.runs_runIn _ _ _
  rw [htimed] at hrun hclocked htruthful
  exact ⟨before, url, headers, e, htimed, ⟨earlier, hmem, of_decide_eq_true hagain⟩,
    skew_recovers hrun hclocked htruthful hcode ⟨earlier, hmem, of_decide_eq_true hagain⟩⟩

end EdgeTts
