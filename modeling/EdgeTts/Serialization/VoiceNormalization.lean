import EdgeTts.Serialization.SsmlBuilder

/-!
# Voice normalization

A configuration is validated, and a document is built, with the normal form of its voice.  As
normal forms are full names and these are their own normal forms, nothing tells a voice from its
full name (`normalizeVoiceName_projection`).
-/
namespace EdgeTts

theorem validateTtsConfig_voice {voice voice' full full' : Bytes}
    (h : normalizeVoiceName voice = some full) (h' : normalizeVoiceName voice' = some full')
    (config : TtsConfig) : validateTtsConfig { config with voice } =
      validateTtsConfig { config with voice := voice' } := by
  rw [validateTtsConfig, validateTtsConfig]
  simp only [h, h', Option.isNone_some, Bool.false_eq_true, if_false]

theorem validateAndNormalizeVoice_voice {voice voice' full : Bytes}
    (h : normalizeVoiceName voice = some full) (h' : normalizeVoiceName voice' = some full)
    (config : TtsConfig) : validateAndNormalizeVoice { config with voice } =
      validateAndNormalizeVoice { config with voice := voice' } := by
  rw [validateAndNormalizeVoice, validateAndNormalizeVoice, validateTtsConfig_voice h h' config]
  simp only [h, h']

/-- The document has the normal form of the voice, and not the voice. -/
theorem SsmlBuilder.build_voice {voice voice' full : Bytes}
    (h : normalizeVoiceName voice = some full) (h' : normalizeVoiceName voice' = some full)
    (config : TtsConfig) (text : Bytes) :
    build { config with voice } text = build { config with voice := voice' } text := by
  rw [build, build, validateAndNormalizeVoice_voice h h' config]
  rfl

theorem TtsConfig.validate_of_isFullName {config : TtsConfig} (h : IsFullName config.voice)
    (hvalid : validateTtsConfig config = .ok ()) : config.validate = (.ok (), config) := by
  rw [validate, normalizeVoiceName_of_isFullName h]
  simp only [hvalid]

/-- **Normalization is a projection to the full names, and nothing downstream tells a voice from
its full name.** -/
theorem normalizeVoiceName_projection {voice full : Bytes}
    (h : normalizeVoiceName voice = some full) :
    (∃ locale name, locale ≠ [] ∧ name ≠ [] ∧ full = fullName locale name) ∧
    normalizeVoiceName full = some full ∧
    (∀ config : TtsConfig, validateTtsConfig { config with voice } =
      validateTtsConfig { config with voice := full }) ∧
    (∀ (config : TtsConfig) (text : Bytes), SsmlBuilder.build { config with voice } text =
      SsmlBuilder.build { config with voice := full } text) ∧
    ∀ config config' : TtsConfig, config.voice = voice → config.validate = (.ok (), config') →
      config'.validate = (.ok (), config') := by
  have hfull := isFullName_of_normalizeVoiceName h
  have hfixed := normalizeVoiceName_of_isFullName hfull
  refine ⟨?_, hfixed, validateTtsConfig_voice h hfixed, SsmlBuilder.build_voice h hfixed, ?_⟩
  · obtain ⟨locale, name, hlocale, hname, heq⟩ := hfull
    exact ⟨locale, name, hlocale.nonempty, hname.nonempty, heq⟩
  · rintro config config' rfl hvalidate
    obtain ⟨full', hfull', rfl, hvalid⟩ := TtsConfig.validate_eq_ok hvalidate
    exact TtsConfig.validate_of_isFullName (isFullName_of_normalizeVoiceName hfull') hvalid

/-- A name with a dash in front and another one behind. -/
theorem normalizeVoiceName_projection_dashes :
    normalizeVoiceName (lit "zh-CN--liaoning-Neural") =
        some (fullName (lit "zh-CN-") (lit "liaoning-Neural")) ∧
      normalizeVoiceName (fullName (lit "zh-CN-") (lit "liaoning-Neural")) =
        some (fullName (lit "zh-CN-") (lit "liaoning-Neural")) := by
  have h : normalizeVoiceName (lit "zh-CN--liaoning-Neural") =
      some (fullName (lit "zh-CN-") (lit "liaoning-Neural")) := by decide
  exact ⟨h, (normalizeVoiceName_projection h).2.1⟩

end EdgeTts
