import EdgeTts.Apps.EdgeTtsMain

/-!
# What a run of edge-tts says and leaves

From the command line to the wire, and from the wire to the files and streams, in a run of the
program that synthesizes and ends with the exit code 0 (`main_speaks`).
-/
namespace EdgeTts
namespace EdgeTtsMain

open EdgeTtsCommandDispatcher (outputOf outputOf_load routed configOf warning
  synthesizeText_routes)
open Interaction (CarriedOut Prog carriedOut_nil)
open StableSort (Sorting)

section
variable {std : Sorting} {jsonParse : Bytes → JsonParse} {fuel : Nat} {tokens : List Bytes}
  {t : MachineTrace}

/-- **A run of `main` that synthesizes** and ends well: the text, the stack that is made for it,
and what the dispatcher does then. -/
theorem main_synthesizes (run : (main std jsonParse fuel tokens).Runs t (some (.ok 0)))
    (synthesizes : (EdgeTtsArgumentParser.parse tokens).action = .synthesize) :
    ∃ t₀ text words headers w v, t = t₀.map cliEvent ++ ((drawnWords words).map stackEvent ++ v) ∧
      (InputLoader.load (EdgeTtsArgumentParser.parse tokens).arguments).Runs t₀ (.ok (.ok text)) ∧
      (dispatcher.synthesizeText (EdgeTtsArgumentParser.parse tokens).arguments text).Runs w
        (.ok 0) ∧
      CarriedOut (synthesisHandler (stackSynthesizer jsonParse headers) fuel) w v := by
  unfold main at run
  dsimp only at run
  by_cases hproxy : (EdgeTtsArgumentParser.parse tokens).arguments.proxy.isSome = true
  · rw [if_pos hproxy] at run
    obtain ⟨_, _, -, -, heq⟩ := run
    cases heq
  · rw [if_neg hproxy, synthesizes] at run
    obtain ⟨t₀, loaded, t₁, rfl, hload, hrest⟩ := dispatchSynthesize_cases run
    rcases loaded with x | e | text
    · cases hrest.2
    · obtain ⟨u, -, _, _, -, -, heq⟩ := hrest
      cases heq
    · obtain ⟨words, headers, w, v, rfl, hw, hc⟩ := hrest
      exact ⟨t₀, text, words, headers, w, v, rfl, hload, hw, hc⟩

end

/-- A synthesis over the stack: its session, and the subtitles of what it returns. -/
theorem synthesis_of_routes {synth : ProductionSynthesizer} {fuel : Nat} {s s' : SpeechSynthesizer}
    {u₁ u₂ : ApiTrace} {v : StackTrace} {chunks : List TtsChunk} {words : RandomTrace}
    (synthesize : s.synthesize.Runs u₁ (s', .ok chunks)) (once : ∀ ev ∈ u₂, NotSynthesizer ev.1)
    (hc : CarriedOut (synth.apiHandler fuel) (u₁ ++ u₂) v) :
    ∃ texts sessionTrace, Synthesis synth s (drawnWords words ++ v) texts sessionTrace chunks := by
  obtain ⟨v₁, v₂, rfl, hc₁, hc₂⟩ := hc.split
  rcases runOnce_cases synthesize with
    ⟨-, -, -, heq⟩ | ⟨-, -, t₁, t₂, synthesis, rfl, hpipeline, rfl, rfl⟩
  · cases heq
  · rw [List.append_nil] at hc₁
    obtain ⟨texts, sessionTrace, hs⟩ := (runPipeline_runs hpipeline).synthesis hc₁
    exact ⟨texts, sessionTrace, hs.mono (stackWire_drawnWords words) (carriedOut_quiet once hc₂)⟩

/-- **What edge-tts says is the text, and what it leaves is what the service has sent.**  A run
that synthesizes and ends with 0 has loaded a text and held its talks, each up to a turn end and
with audio in it, or the user has cancelled it at the terminal and nothing was sent.  A server
decodes the talks to the configuration and the text of the command line; their audio is all that
the standard output or the media file has got, and their subtitles are all that the other file or
the standard error has got, as the options say; and these show the captions of the recording, if
no time is too great. -/
theorem main_speaks {std : Sorting} {jsonParse : Bytes → JsonParse} {fuel : Nat}
    {tokens : List Bytes} {t : MachineTrace}
    (run : (main std jsonParse fuel tokens).Runs t (some (.ok 0)))
    (synthesizes : (EdgeTtsArgumentParser.parse tokens).action = .synthesize) :
    let args := (EdgeTtsArgumentParser.parse tokens).arguments
    args.writeMedia = none ∧ stackWire (stackEvents t) = [] ∧
      machineOutput t = { err := warning ++ lit "\nOperation canceled.\n" } ∨
    ∃ (text : Bytes) (talks : List Talk) (srt warned : Bytes),
      (∃ t₀, (InputLoader.load args).Runs t₀ (.ok (.ok text)) ∧ t₀.map cliEvent <+: t) ∧
      stackWire (stackEvents t) = talks.flatMap Talk.wire ∧ Upgrades talks ∧
      (∀ talk ∈ talks, (stackSession jsonParse).WholeTurn talk.messages ∧
        (talk.heard jsonParse).any isAudio = true) ∧
      ((0x27 : UInt8) ∉ args.voice → (∀ now, ⟨.stack .now, now⟩ ∈ t → FourDigitYear now) →
        Utters (configOf args) text talks) ∧
      (warned = [] ∨ warned = warning) ∧
      machineOutput t = { err := warned } ++
        routed args (talks.flatMap fun talk => audioOf (talk.heard jsonParse)) srt ∧
      Captioned jsonParse talks srt := by
  intro args
  obtain ⟨t₀, text, words, headers, w, v, rfl, hload, hw, hc⟩ := main_synthesizes run synthesizes
  have hstack := carriedOut_stack hc
  have hevents : stackEvents (t₀.map cliEvent ++ ((drawnWords words).map stackEvent ++ v)) =
      drawnWords words ++ stackEvents v := by
    simp [stackEvents_cliEvent]
  have houtput : machineOutput (t₀.map cliEvent ++ ((drawnWords words).map stackEvent ++ v)) =
      outputOf w := by
    rw [machineOutput_append, machineOutput_append, machineOutput_cliEvent,
      machineOutput_stackEvent, stackFileActions_drawnWords, machineOutput_synthesis hc,
      (outputOf_load hload).1]
    rfl
  rw [hevents, houtput]
  rcases synthesizeText_routes hw with
    hcancelled | ⟨u₁, u₂, s', chunks, srt, warned, hlibrary, hsynthesize, honce, ⟨u, submaker, hfed,
      hsrt⟩, hwarned, hout⟩
  · rw [hcancelled.library] at hstack
    refine .inl ⟨hcancelled.toTerminal.1, ?_, hcancelled.output⟩
    rw [carriedOut_nil.mp hstack, List.append_nil, stackWire_drawnWords]
  · rw [hlibrary] at hstack
    obtain ⟨texts, sessionTrace, hs⟩ := synthesis_of_routes hsynthesize honce hstack
    obtain ⟨talks, habout, hwire, hconvs, hturns, huntimed⟩ := hs.run.talks
    refine .inr ⟨text, talks, srt, warned, ⟨t₀, hload, List.prefix_append _ _⟩,
      by rw [hs.wire_eq, hwire], hs.upgrades habout fun talk htalk => (hturns talk htalk).1,
      fun talk htalk => (hturns talk htalk).2, fun plain years => ?_, hwarned, ?_,
      toSrt_shows hs.run hconvs hfed hsrt⟩
    · exact hs.decoded habout plain fun now hnow =>
        years now (mem_stackEvents (hevents.symm ▸ hnow))
    · rw [hout, audioOf_of_untimed huntimed]

/-- The audio of one message goes to the standard output. -/
theorem main_speaks_sample :
    let run := (main Sorting.insertion sampleSession.jsonParse 3 [lit "--text", lit "Hi"]).runIn
      sampleComputer [audioMessage]
    ∃ (talks : List Talk) (srt warned : Bytes),
      stackWire (stackEvents run.trace) = talks.flatMap Talk.wire ∧
      machineOutput run.trace = { err := warned } ++
        routed (EdgeTtsArgumentParser.parse [lit "--text", lit "Hi"]).arguments
          (talks.flatMap fun talk => audioOf (talk.heard sampleSession.jsonParse)) srt := by
  intro run
  have hrun : (main Sorting.insertion sampleSession.jsonParse 3 [lit "--text", lit "Hi"]).Runs
      run.trace run.result := Prog.runs_runIn _ _ _
  have hzero : run.result = some (.ok 0) := by decide +kernel
  have hwire : (stackWire (stackEvents run.trace)).isEmpty = false := by decide +kernel
  rcases main_speaks (hzero ▸ hrun) (by decide +kernel) with
    ⟨-, hnone, -⟩ | ⟨text, talks, srt, warned, -, htalks, -, -, -, -, hout, -⟩
  · rw [hnone] at hwire
    cases hwire
  · exact ⟨talks, srt, warned, htalks, hout⟩

end EdgeTtsMain
end EdgeTts
