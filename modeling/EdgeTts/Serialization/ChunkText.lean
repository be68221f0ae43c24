import EdgeTts.Serialization.TextChunker

/-!
# What the chunks say

Away from strip bytes the chunks hold the text, whatever the options are
(`TextChunker.spoken_pieces`).  That no unit is cut needs room for each unit of the text, and
this is exactly when `chunk` keeps its contract: for a larger unit the loop skips a byte and
goes on, and what it returns is not a split of the text.
-/
namespace EdgeTts

open Utf8 (Valid)
open String (utf8EncodeChar)

/-- Not a strip byte. -/
def keepByte (b : UInt8) : Bool := !isStripByte b

/-- The text without its strip bytes. -/
def content (s : Bytes) : Bytes := s.filter keepByte

/-- What is spoken of a list of chunks. -/
def spoken (chunks : List Bytes) : Bytes := content (chunks.map xmlUnescape).flatten

/-! ## Strip bytes -/

theorem content_append (a b : Bytes) : content (a ++ b) = content a ++ content b :=
  List.filter_append ..

theorem content_eq_nil {w : Bytes} (h : StripOnly w) : content w = [] := by
  rw [content, List.filter_eq_nil_iff]
  intro b hb
  rw [keepByte, h b hb]
  exact nofun

/-- **What is woven has the content of the text.** -/
theorem Woven.content_eq {text : Bytes} {chunks : List Bytes} (h : Woven text chunks) :
    content text = content chunks.flatten := by
  induction h with
  | last h => exact content_eq_nil h
  | next h _ ih =>
      rw [content_append, content_append, content_eq_nil h, ih, List.nil_append,
        List.flatten_cons, content_append]

/-- An entity is ASCII and holds no strip byte. -/
theorem entity_bytes {name : Bytes} (h : name ∈ entityNames) :
    ∀ x ∈ 0x26 :: (name ++ [0x3B]), x.toNat < 0x80 ∧ keepByte x = true := by
  have hnames : ∀ name ∈ entityNames, ∀ x ∈ 0x26 :: (name ++ [0x3B]),
      x.toNat < 0x80 ∧ keepByte x = true := by decide +kernel
  exact hnames name h

/-- Escaping neither adds strip bytes nor removes any. -/
theorem content_xmlEscape (s : Bytes) : content (xmlEscape s) = xmlEscape (content s) := by
  induction s with
  | nil => rfl
  | cons b s ih =>
      rw [xmlEscape_cons, content_append, ih]
      rcases escapeByte_cases b with ⟨-, he⟩ | ⟨hm, body, hbody, he, -⟩
      · rw [he]
        by_cases hb : keepByte b = true
        · rw [content, content, content, List.filter_cons_of_pos hb, List.filter_cons_of_pos hb,
            xmlEscape_cons, he]
          rfl
        · rw [content, content, content, List.filter_cons_of_neg hb, List.filter_cons_of_neg hb]
          rfl
      · have hb : keepByte b = true := by
          rcases hm with rfl | rfl | rfl
          all_goals rfl
        have hunit : content (escapeByte b) = escapeByte b := by
          rw [he]
          exact List.filter_eq_self.mpr fun x hx => (entity_bytes hbody x hx).2
        rw [hunit, content, content, List.filter_cons_of_pos hb, xmlEscape_cons]

theorem xmlEscape_inj {a b : Bytes} (h : xmlEscape a = xmlEscape b) : a = b := by
  rw [← xmlUnescape_xmlEscape a, h, xmlUnescape_xmlEscape]

theorem xmlEscape_flatten (pieces : List Bytes) :
    xmlEscape pieces.flatten = (pieces.map xmlEscape).flatten := by
  induction pieces with
  | nil => rfl
  | cons piece pieces ih =>
      rw [List.flatten_cons, xmlEscape_append, ih, List.map_cons, List.flatten_cons]

/-! ## The two modes -/

namespace TextChunker

/-- The text that `split_by_limit` works on. -/
def workText (t : TextChunker) (norm : Bytes) : Bytes :=
  if t.opts.sizeAfterXmlEscape then xmlEscape norm else norm

/-- What `split_by_limit` returns to `chunk`. -/
def pieces (t : TextChunker) (norm : Bytes) : List Bytes :=
  splitByLimit (t.workText norm) t.opts.maxChunkSize t.opts.preferSentenceBoundary
    t.opts.preferWordBoundary t.opts.sizeAfterXmlEscape

/-- What the limit is compared with: the chunk, or what it was before escaping. -/
def measured (t : TextChunker) (c : Bytes) : Bytes :=
  if t.opts.sizeAfterXmlEscape then c else xmlUnescape c

/-- What `chunk` makes of a piece. -/
def finish (t : TextChunker) (piece : Bytes) : Bytes :=
  if t.opts.sizeAfterXmlEscape then piece else xmlEscape piece

variable (t : TextChunker)

theorem workText_encode (cs : List Char) : t.workText (cs.flatMap utf8EncodeChar) =
    cs.flatMap (unitBytes t.opts.sizeAfterXmlEscape) := (flatMap_unitBytes_eq _ cs).symm

/-- A chunk is measured by the units that it holds. -/
theorem measured_xmlEscape (cs : List Char) : t.measured (xmlEscape (cs.flatMap utf8EncodeChar)) =
    cs.flatMap (unitBytes t.opts.sizeAfterXmlEscape) := by
  rw [flatMap_unitBytes_eq, measured, xmlUnescape_xmlEscape]

/-- The units of a piece make the escape of the characters they are of. -/
theorem finish_units (cs : List Char) :
    t.finish (cs.flatMap (unitBytes t.opts.sizeAfterXmlEscape)) =
      xmlEscape (cs.flatMap utf8EncodeChar) := by
  rw [flatMap_unitBytes_eq, finish]
  by_cases hmode : t.opts.sizeAfterXmlEscape = true
  · rw [if_pos hmode, if_pos hmode]
  · rw [if_neg hmode, if_neg hmode]

theorem chunk_of_valid {input : Bytes} (h : Valid input) :
    t.chunk input = .ok ((t.pieces (normalizeLoop input)).map t.finish) := by
  have hnorm := (TextNormalizer.normalize_of_valid h).1
  unfold chunk pieces workText finish
  rw [hnorm]
  by_cases hmode : t.opts.sizeAfterXmlEscape = true
  · simp [hmode]
  · simp [hmode]

theorem measured_finish (piece : Bytes) : t.measured (t.finish piece) = piece := by
  unfold measured finish
  split
  · rfl
  · exact xmlUnescape_xmlEscape piece

end TextChunker

/-- Chunks that hold whole entities have the content of what they say, escaped. -/
theorem content_flatten {chunks : List Bytes} (h : ∀ c ∈ chunks, xmlEscape (xmlUnescape c) = c) :
    content chunks.flatten = xmlEscape (spoken chunks) := by
  have hchunks : (chunks.map xmlUnescape).map xmlEscape = chunks := by
    rw [List.map_map]
    exact (List.map_congr_left h).trans (List.map_id chunks)
  rw [spoken, ← content_xmlEscape, xmlEscape_flatten, hchunks]

namespace TextChunker
variable (t : TextChunker) {norm : Bytes}

/-- A whole piece becomes the escape of a valid text. -/
theorem escaped_finish {piece : Bytes} (h : Whole t.opts.sizeAfterXmlEscape piece) :
    Escaped (t.finish piece) := by
  obtain ⟨cs, rfl⟩ := h
  exact ⟨_, ⟨cs, rfl⟩, t.finish_units cs⟩

theorem whole_workText (h : Valid norm) : Whole t.opts.sizeAfterXmlEscape (t.workText norm) := by
  obtain ⟨cs, rfl⟩ := h
  exact ⟨cs, t.workText_encode cs⟩

/-- **The chunks say the text**, when there is room for each of its units. -/
theorem spoken_pieces (h : Fits t.opts.sizeAfterXmlEscape t.opts.maxChunkSize (t.workText norm)) :
    spoken ((t.pieces norm).map t.finish) = content norm := by
  obtain ⟨hwoven, hall⟩ := splitByLimit_fits t.opts.preferSentenceBoundary
    t.opts.preferWordBoundary t.maxChunkSize_pos h
  have hcontent : content (t.workText norm) = content (t.pieces norm).flatten := hwoven.content_eq
  have hwhole : ∀ c ∈ (t.pieces norm).map t.finish, xmlEscape (xmlUnescape c) = c := by
    intro c hc
    obtain ⟨piece, hpiece, rfl⟩ := List.mem_map.mp hc
    exact (t.escaped_finish (hall piece hpiece).2.2.2.whole).escape_unescape
  by_cases hmode : t.opts.sizeAfterXmlEscape = true
  · have hfinish : (t.pieces norm).map t.finish = t.pieces norm :=
      List.map_id'' (fun piece => if_pos hmode) _
    rw [hfinish] at hwhole ⊢
    apply xmlEscape_inj
    rw [← content_flatten hwhole, ← hcontent, workText, if_pos hmode, content_xmlEscape]
  · have hunescape : ((t.pieces norm).map t.finish).map xmlUnescape = t.pieces norm := by
      rw [List.map_map]
      apply List.map_id''
      intro piece
      show xmlUnescape (if _ then piece else xmlEscape piece) = piece
      rw [if_neg hmode, xmlUnescape_xmlEscape]
    rw [spoken, hunescape, ← hcontent, workText, if_neg hmode]

/-- **What is spoken does not depend on the chunking options.**  It is the normalized text
without its strip bytes, and in raw mode every chunk says a valid text within the limit. -/
theorem chunk_spoken {input : Bytes} (h : Valid input) :
    ∃ norm, TextNormalizer.normalize input = .ok norm ∧
      ∀ t₁ t₂ : TextChunker, 5 ≤ t₁.opts.maxChunkSize → 5 ≤ t₂.opts.maxChunkSize →
        ∃ chunks₁ chunks₂, t₁.chunk input = .ok chunks₁ ∧ t₂.chunk input = .ok chunks₂ ∧
          spoken chunks₁ = spoken chunks₂ ∧ spoken chunks₁ = content norm ∧
          (t₁.opts.sizeAfterXmlEscape = false → ∀ c ∈ chunks₁,
            Valid (xmlUnescape c) ∧ (xmlUnescape c).length ≤ t₁.opts.maxChunkSize) := by
  obtain ⟨hnorm, hvalid⟩ := TextNormalizer.normalize_of_valid h
  refine ⟨normalizeLoop input, hnorm, fun t₁ t₂ h₁ h₂ => ?_⟩
  have hfits₁ := (t₁.whole_workText hvalid).fits h₁
  have hfits₂ := (t₂.whole_workText hvalid).fits h₂
  refine ⟨_, _, t₁.chunk_of_valid h, t₂.chunk_of_valid h, ?_, t₁.spoken_pieces hfits₁, ?_⟩
  · rw [t₁.spoken_pieces hfits₁, t₂.spoken_pieces hfits₂]
  · intro hmode c hc
    obtain ⟨piece, hpiece, rfl⟩ := List.mem_map.mp hc
    have hmeasured := t₁.measured_finish piece
    rw [measured, if_neg (by rw [hmode]; exact Bool.false_ne_true)] at hmeasured
    obtain ⟨-, hall⟩ := splitByLimit_fits t₁.opts.preferSentenceBoundary
      t₁.opts.preferWordBoundary t₁.maxChunkSize_pos hfits₁
    obtain ⟨-, -, hlen, hfits⟩ := hall piece hpiece
    rw [hmeasured]
    have hwhole := hfits.whole
    rw [hmode] at hwhole
    exact ⟨whole_false.mp hwhole, hlen⟩

/-- Escaped chunks of at most eight bytes, and raw ones of at most five. -/
theorem chunk_spoken_modes :
    let t₁ : TextChunker := ⟨{ maxChunkSize := 5, sizeAfterXmlEscape := false }, by decide⟩
    let t₂ : TextChunker := ⟨{ maxChunkSize := 8 }, by decide⟩
    ∃ chunks₁ chunks₂, t₁.chunk (lit "a < b & c") = .ok chunks₁ ∧
      t₂.chunk (lit "a < b & c") = .ok chunks₂ ∧ spoken chunks₁ = spoken chunks₂ := by
  intro t₁ t₂
  have hvalid : Valid (lit "a < b & c") := ⟨"a < b & c".toList, by decide⟩
  obtain ⟨norm, -, hspoken⟩ := chunk_spoken hvalid
  obtain ⟨chunks₁, chunks₂, h₁, h₂, heq, -⟩ := hspoken t₁ t₂ (by decide) (by decide)
  exact ⟨chunks₁, chunks₂, h₁, h₂, heq⟩

end TextChunker

/-! ## Units of the text and of the chunks -/

theorem unitBytes_inj {escaped : Bool} {cs ds : List Char}
    (h : cs.flatMap (unitBytes escaped) = ds.flatMap (unitBytes escaped)) : cs = ds := by
  cases escaped with
  | false => exact Utf8.flatMap_encode_inj h
  | true =>
      rw [flatMap_unitBytes, flatMap_unitBytes] at h
      exact Utf8.flatMap_encode_inj (xmlEscape_inj h)

/-- The characters below `&` are units of one byte. -/
theorem length_unitBytes_low {c : Char} (h : c.toNat < 0x26) (escaped : Bool) :
    (unitBytes escaped c).length = 1 := by
  have henc := Utf8.encode_one (c := c) (by omega)
  have hplain : ¬ IsMarkup (UInt8.ofNat c.toNat) := by
    intro hm
    have hlow := Utf8.toNat_ofNat_of_lt (n := c.toNat) (by omega)
    rcases hm with hm | hm | hm
    all_goals
      rw [hm] at hlow
      simp only [UInt8.reduceToNat] at hlow
      omega
  cases escaped with
  | false => exact congrArg List.length henc
  | true =>
      show ((utf8EncodeChar c).flatMap escapeByte).length = 1
      rw [henc, List.flatMap_singleton, escapeByte_plain hplain]
      rfl

/-- Normalizing keeps the size of every unit. -/
theorem length_unitBytes_replaceControl (escaped : Bool) (c : Char) :
    (unitBytes escaped (replaceControl c)).length = (unitBytes escaped c).length := by
  unfold replaceControl
  split
  · rw [length_unitBytes_low (c := ' ') (by decide), length_unitBytes_low (by omega)]
  · rfl

/-- A character that is a strip byte. -/
def stripChar (c : Char) : Bool := c.toNat < 0x80 && isStripByte (UInt8.ofNat c.toNat)

theorem toNat_of_stripChar {c : Char} (h : stripChar c = true) : c.toNat < 0x26 := by
  rw [stripChar, Bool.and_eq_true, decide_eq_true_eq] at h
  obtain ⟨hascii, hstrip⟩ := h
  have hlow := Utf8.toNat_ofNat_of_lt (n := c.toNat) (by omega)
  simp only [isStripByte, Bool.or_eq_true, beq_iff_eq] at hstrip
  rcases hstrip with ((((hb | hb) | hb) | hb) | hb) | hb
  all_goals
    rw [hb] at hlow
    simp only [UInt8.reduceToNat] at hlow
    omega

/-- The content of a text, by characters. -/
theorem content_encode (cs : List Char) : content (cs.flatMap utf8EncodeChar) =
    (cs.filter (!stripChar ·)).flatMap utf8EncodeChar := by
  induction cs with
  | nil => rfl
  | cons c cs ih =>
      rw [List.flatMap_cons, content_append, ih, List.filter_cons]
      rcases Nat.lt_or_ge c.toNat 0x80 with h | h
      · have henc := Utf8.encode_one h
        have hchar : stripChar c = isStripByte (UInt8.ofNat c.toNat) := by
          rw [stripChar, decide_eq_true h, Bool.true_and]
        rw [hchar, henc, content, List.filter_singleton, keepByte]
        cases isStripByte (UInt8.ofNat c.toNat) with
        | true => rfl
        | false =>
            show [UInt8.ofNat c.toNat] ++ _ = (c :: cs.filter (!stripChar ·)).flatMap utf8EncodeChar
            rw [List.flatMap_cons, henc]
      · have hkeep : stripChar c = false := by
          rw [stripChar, decide_eq_false (Nat.not_lt.mpr h), Bool.false_and]
        have hall : content (utf8EncodeChar c) = utf8EncodeChar c := by
          apply List.filter_eq_self.mpr
          intro b hb
          have := Utf8.encode_high h b hb
          rw [keepByte, Bool.not_eq_true', ← Bool.not_eq_true]
          intro hstrip
          have := (stripByte_plain hstrip).1
          omega
        rw [hkeep, hall]
        rfl

/-- What an escape without `&` was made from. -/
theorem eq_of_xmlEscape_no_amp {raw : Bytes} (h : (0x26 : UInt8) ∉ xmlEscape raw) :
    xmlEscape raw = raw := by
  have hplain : ∀ b ∈ raw, escapeByte b = [b] := by
    intro b hb
    rcases escapeByte_cases b with ⟨-, he⟩ | ⟨-, body, -, he, -⟩
    · exact he
    · refine absurd (List.mem_flatMap.mpr ⟨b, hb, ?_⟩) h
      rw [he]
      exact List.mem_cons_self
  rw [xmlEscape, List.flatMap_congr hplain, List.flatMap_singleton']

/-- Only a valid text has a valid escape. -/
theorem valid_of_xmlEscape {raw : Bytes} (h : Valid (xmlEscape raw)) : Valid raw := by
  induction hn : raw.length using Nat.strongRecOn generalizing raw with
  | ind n ih =>
      cases raw with
      | nil => exact Utf8.valid_nil
      | cons b raw =>
          rw [List.length_cons] at hn
          rw [xmlEscape_cons] at h
          rcases Nat.lt_or_ge b.toNat 0x80 with hb | hb
          · have hunit : ∀ x ∈ escapeByte b, x.toNat < 0x80 := by
              rcases escapeByte_cases b with ⟨-, he⟩ | ⟨-, body, hbody, he, -⟩
              · rw [he, List.forall_mem_singleton]
                exact hb
              · rw [he]
                exact fun x hx => (entity_bytes hbody x hx).1
            exact (Utf8.valid_ascii hb).append (ih raw.length (by omega) (h.drop_ascii hunit) rfl)
          · -- a longer code point, which escaping has copied
            have hplain : ¬ IsMarkup b := fun hm => by
              have := isMarkup_ascii hm
              omega
            rw [escapeByte_plain hplain] at h
            obtain ⟨c, t, r, hc, htail, hr⟩ := h.cons_inv
            obtain ⟨_, _, hc', -, ht, -⟩ := Utf8.encode_shape c
            rw [hc] at hc'
            cases hc'
            have hamp : (0x26 : UInt8) ∉ t := fun hm => absurd (ht 0x26 hm) (by decide)
            obtain ⟨x, y, rfl, hx, rfl⟩ := xmlEscape_cut_closed htail (by
              rintro ⟨u, v, rfl, -⟩
              exact hamp (by simp))
            obtain rfl : x = t := (eq_of_xmlEscape_no_amp (hx ▸ hamp)).symm.trans hx.symm
            rw [List.length_append] at hn
            rw [← List.cons_append, ← hc]
            exact (Utf8.valid_encode c).append (ih y.length (by omega) hr rfl)

namespace TextChunker
variable (t : TextChunker)

/-- There is room for every unit of the text. -/
def UnitsFit (input : Bytes) : Prop :=
  ∀ cs : List Char, input = cs.flatMap utf8EncodeChar →
    ∀ c ∈ cs, (unitBytes t.opts.sizeAfterXmlEscape c).length ≤ t.opts.maxChunkSize

/-- The chunks are a split of the escaped text: within the limit, with no code point and no
entity cut, and with everything but strip bytes in its order. -/
structure ValidSplit (norm : Bytes) (chunks : List Bytes) : Prop where
  size : ∀ c ∈ chunks, (t.measured c).length ≤ t.opts.maxChunkSize
  valid : ∀ c ∈ chunks, Valid c
  entities : ∀ c ∈ chunks, xmlEscape (xmlUnescape c) = c
  content : content chunks.flatten = content (xmlEscape norm)

/-- What `chunk` owes its caller: a split, or an error when a unit is too large for one. -/
def SplitsOrReports (input : Bytes) : Prop :=
  ∃ norm, TextNormalizer.normalize input = .ok norm ∧
    ((∃ chunks, t.chunk input = .ok chunks ∧ t.ValidSplit norm chunks) ∨
      ¬ t.UnitsFit input ∧ ∃ e, t.chunk input = .error e ∧ e.code = .invalidArgument)

theorem fits_workText {input : Bytes} (hvalid : Valid input) (h : t.UnitsFit input) :
    Fits t.opts.sizeAfterXmlEscape t.opts.maxChunkSize (t.workText (normalizeLoop input)) := by
  refine ⟨t.whole_workText (valid_normalizeLoop hvalid), fun ds hds d hd => ?_⟩
  obtain ⟨cs, rfl⟩ := hvalid
  -- the units of the work text are those of the input, normalized
  have hwork : t.workText (normalizeLoop (cs.flatMap utf8EncodeChar)) =
      (cs.map replaceControl).flatMap (unitBytes t.opts.sizeAfterXmlEscape) := by
    rw [normalizeLoop_encode, workText_encode]
  obtain rfl := unitBytes_inj (hds.symm.trans hwork)
  obtain ⟨c, hc, rfl⟩ := List.mem_map.mp hd
  rw [length_unitBytes_replaceControl]
  exact h cs rfl c hc

/-- Room for every unit is enough. -/
theorem validSplit_of_unitsFit {input : Bytes} (hvalid : Valid input) (h : t.UnitsFit input) :
    t.ValidSplit (normalizeLoop input) ((t.pieces (normalizeLoop input)).map t.finish) := by
  have hfits := t.fits_workText hvalid h
  obtain ⟨-, hall⟩ := splitByLimit_fits t.opts.preferSentenceBoundary
    t.opts.preferWordBoundary t.maxChunkSize_pos hfits
  have hescaped : ∀ c ∈ (t.pieces (normalizeLoop input)).map t.finish, Escaped c := by
    intro c hc
    obtain ⟨piece, hpiece, rfl⟩ := List.mem_map.mp hc
    exact t.escaped_finish (hall piece hpiece).2.2.2.whole
  refine ⟨fun c hc => ?_, fun c hc => (hescaped c hc).valid,
    fun c hc => (hescaped c hc).escape_unescape, ?_⟩
  · obtain ⟨piece, hpiece, rfl⟩ := List.mem_map.mp hc
    rw [measured_finish]
    exact (hall piece hpiece).2.2.1
  · rw [content_flatten fun c hc => (hescaped c hc).escape_unescape, t.spoken_pieces hfits,
      content_xmlEscape]

/-- Each chunk of a split is the escape of some characters. -/
theorem exists_chars {chunks : List Bytes} (hvalid : ∀ c ∈ chunks, Valid c)
    (hentities : ∀ c ∈ chunks, xmlEscape (xmlUnescape c) = c) :
    ∃ css : List (List Char), chunks = css.map fun ds => xmlEscape (ds.flatMap utf8EncodeChar) := by
  induction chunks with
  | nil => exact ⟨[], rfl⟩
  | cons chunk chunks ih =>
      obtain ⟨hv, hvs⟩ := List.forall_mem_cons.mp hvalid
      obtain ⟨he, hes⟩ := List.forall_mem_cons.mp hentities
      obtain ⟨css, hcss⟩ := ih hvs hes
      obtain ⟨ds, hds⟩ := valid_of_xmlEscape (he.symm ▸ hv)
      exact ⟨ds :: css, by rw [List.map_cons, ← hds, he, ← hcss]⟩

/-- Any split has the characters of the text in its chunks. -/
theorem ValidSplit.chars {t : TextChunker} {cs : List Char} {chunks : List Bytes}
    (h : t.ValidSplit (cs.flatMap utf8EncodeChar) chunks) {c : Char} (hc : c ∈ cs)
    (hkeep : stripChar c = false) :
    ∃ chunk ∈ chunks, ∃ ds : List Char, chunk = xmlEscape (ds.flatMap utf8EncodeChar) ∧ c ∈ ds := by
  obtain ⟨css, rfl⟩ := exists_chars h.valid h.entities
  have hflat : (css.map fun ds => xmlEscape (ds.flatMap utf8EncodeChar)).flatten =
      xmlEscape (css.flatten.flatMap utf8EncodeChar) := by
    simp only [List.flatten_eq_flatMap, List.flatMap_map, List.flatMap_assoc, xmlEscape, id_eq]
  have hcontent := h.content
  rw [hflat, content_xmlEscape, content_xmlEscape] at hcontent
  have hchars := xmlEscape_inj hcontent
  rw [content_encode, content_encode] at hchars
  have hmem : c ∈ css.flatten.filter (!stripChar ·) := by
    rw [Utf8.flatMap_encode_inj hchars]
    exact List.mem_filter.mpr ⟨hc, by rw [hkeep]; rfl⟩
  obtain ⟨ds, hds, hcds⟩ := List.mem_flatten.mp (List.mem_filter.mp hmem).1
  exact ⟨_, List.mem_map_of_mem hds, ds, rfl, hcds⟩

/-- There is no split without room for every unit. -/
theorem unitsFit_of_validSplit {input : Bytes} {chunks : List Bytes}
    (h : t.ValidSplit (normalizeLoop input) chunks) : t.UnitsFit input := by
  rintro cs rfl c hc
  rw [normalizeLoop_encode] at h
  rw [← length_unitBytes_replaceControl]
  cases hstrip : stripChar (replaceControl c) with
  | true =>
      rw [length_unitBytes_low (toNat_of_stripChar hstrip)]
      exact t.maxChunkSize_pos
  | false =>
      obtain ⟨chunk, hchunk, ds, rfl, hds⟩ := h.chars (List.mem_map_of_mem hc) hstrip
      have hsize := h.size _ hchunk
      rw [measured_xmlEscape] at hsize
      obtain ⟨a, b, rfl⟩ := List.append_of_mem hds
      rw [List.flatMap_append, List.flatMap_cons, List.length_append, List.length_append] at hsize
      omega

/-- **When `chunk` keeps its contract**: exactly on the texts without a unit that is larger than
the limit.  It never reports one. -/
theorem splitsOrReports_iff {input : Bytes} (h : Valid input) :
    t.SplitsOrReports input ↔ t.UnitsFit input := by
  constructor
  · rintro ⟨norm, hnorm, ⟨chunks, -, hsplit⟩ | ⟨-, e, herror, -⟩⟩
    · obtain ⟨-, rfl⟩ := TextNormalizer.normalize_eq_ok hnorm
      exact t.unitsFit_of_validSplit hsplit
    · rw [t.chunk_of_valid h] at herror
      cases herror
  · intro hfit
    exact ⟨_, (TextNormalizer.normalize_of_valid h).1,
      Or.inl ⟨_, t.chunk_of_valid h, t.validSplit_of_unitsFit h hfit⟩⟩

/-- A limit with room for the characters of the text, in raw mode. -/
theorem splitsOrReports_raw :
    let t : TextChunker := ⟨{ maxChunkSize := 1, sizeAfterXmlEscape := false }, by decide⟩
    t.SplitsOrReports (lit "a&b") := by
  intro t
  refine (t.splitsOrReports_iff ⟨['a', '&', 'b'], by decide⟩).mpr ?_
  intro cs hcs
  obtain rfl : ['a', '&', 'b'] = cs := Utf8.flatMap_encode_inj (by rw [← hcs]; decide)
  rw [List.forall_mem_cons, List.forall_mem_cons, List.forall_mem_singleton]
  decide

/-- An entity that is larger than the limit: the chunks are `amp` and `;`. -/
theorem chunk_cuts_entity :
    let t : TextChunker := ⟨{ maxChunkSize := 3 }, by decide⟩
    Valid (lit "&") ∧ t.chunk (lit "&") = .ok [lit "amp", lit ";"] ∧
      ¬ t.SplitsOrReports (lit "&") := by
  intro t
  have hvalid : Valid (lit "&") := ⟨['&'], by decide⟩
  have hchunk : t.chunk (lit "&") = .ok [lit "amp", lit ";"] := by decide +kernel
  refine ⟨hvalid, hchunk, ?_⟩
  rintro ⟨norm, hnorm, ⟨chunks, -, hsplit⟩ | ⟨-, e, herror, -⟩⟩
  · obtain ⟨-, rfl⟩ := TextNormalizer.normalize_eq_ok hnorm
    have hfit := t.unitsFit_of_validSplit hsplit ['&'] (by decide) '&' (by decide)
    exact absurd hfit (by decide)
  · rw [hchunk] at herror
    cases herror

end TextChunker
end EdgeTts
