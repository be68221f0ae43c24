import EdgeTts.Serialization.ChunkText

/-!
# Words that fit are not cut

A run is a stretch of the text without a delimiter, with a delimiter or an end of the text on
each side.  The loop splits at delimiters as long as there is one in reach, so a split point
never falls into a run that fits into the limit (`splitPoint_outside`), and each turn leaves
the run to the next one or puts it into its chunk (`splitByLimit_kept`).
-/
namespace EdgeTts

open Utf8 (Valid)

/-- `r` is a maximal run of bytes that are no delimiters, between `a` and `b`. -/
structure Run (delimiter : UInt8 → Bool) (a r b : Bytes) : Prop where
  free : ∀ x ∈ r, delimiter x = false
  left : ∀ x, a.getLast? = some x → delimiter x = true
  right : ∀ x, b.head? = some x → delimiter x = true

namespace Run
variable {delimiter : UInt8 → Bool} {w a r b : Bytes} {x : UInt8}

theorem of_append (h : Run delimiter (w ++ a) r b) : Run delimiter a r b := by
  refine ⟨h.free, fun z hz => h.left z ?_, h.right⟩
  rw [List.getLast?_append, hz]
  rfl

theorem tail (h : Run delimiter [] (x :: r) b) : Run delimiter [] r b :=
  ⟨fun z hz => h.free z (List.mem_cons_of_mem x hz), nofun, h.right⟩

/-- A delimiter does not stand in a run. -/
theorem delimiter_outside {u v : Bytes} (h : Run delimiter a r b)
    (htext : u ++ x :: v = a ++ r ++ b) (hx : delimiter x = true) :
    u.length ≤ a.length ∨ a.length + r.length ≤ u.length := by
  by_contra hin
  rw [not_or, Nat.not_le, Nat.not_le] at hin
  have hget : (a ++ r ++ b)[u.length]? = some x := by
    rw [← htext, List.getElem?_append_right (Nat.le_refl _), Nat.sub_self]
    rfl
  rw [List.append_assoc, List.getElem?_append_right (by omega),
    List.getElem?_append_left (by omega)] at hget
  rw [h.free x (List.mem_of_getElem? hget)] at hx
  cases hx

end Run

/-- What comes after `a` in the text, `r`, is in one of the chunks as a whole, but for strip
bytes at its ends: the chunk stands at `p` in the text, and `m` in the chunk where it stood
in the text. -/
def Kept (text : Bytes) (chunks : List Bytes) (a r : Bytes) : Prop :=
  ∃ u m v, r = u ++ m ++ v ∧ StripOnly u ∧ StripOnly v ∧
    (m = [] ∨ ∃ before c after p q x y, chunks = before ++ c :: after ∧ text = p ++ c ++ q ∧
      Woven p before ∧ Woven q after ∧ c = x ++ m ++ y ∧ p ++ x = a ++ u)

theorem StripOnly.left {u v : Bytes} (h : StripOnly (u ++ v)) : StripOnly u :=
  fun b hb => h b (List.mem_append_left v hb)

theorem StripOnly.right {u v : Bytes} (h : StripOnly (u ++ v)) : StripOnly v :=
  fun b hb => h b (List.mem_append_right u hb)

/-- A run of strip bytes is kept anyhow. -/
theorem kept_of_stripOnly {text a r : Bytes} {chunks : List Bytes} (h : StripOnly r) :
    Kept text chunks a r :=
  ⟨r, [], [], by simp, h, stripOnly_nil, Or.inl rfl⟩

/-! ## The turn that yields the run -/

/-- What is left of `r` when strip bytes are taken off the end of a text that starts with it. -/
theorem strip_right {c v r b : Bytes} (hv : StripOnly v) (h : c ++ v = r ++ b) :
    ∃ m v' y, r = m ++ v' ∧ StripOnly v' ∧ c = m ++ y := by
  rcases List.append_eq_append_iff.mp h with ⟨y, rfl, rfl⟩ | ⟨y, rfl, rfl⟩
  · exact ⟨c, y, [], rfl, hv.left, by simp⟩
  · exact ⟨r, [], y, by simp, stripOnly_nil, rfl⟩

/-- What is left of `r` when strip bytes are taken off both ends of a piece that holds it. -/
theorem strip_overlap {u ch v a r b : Bytes} (hu : StripOnly u) (hv : StripOnly v)
    (h : u ++ ch ++ v = a ++ r ++ b) :
    ∃ u' m v', r = u' ++ m ++ v' ∧ StripOnly u' ∧ StripOnly v' ∧
      (m = [] ∨ ∃ x y, ch = x ++ m ++ y ∧ u ++ x = a ++ u') := by
  have allStrip : StripOnly r → ∃ u' m v', r = u' ++ m ++ v' ∧ StripOnly u' ∧ StripOnly v' ∧
      (m = [] ∨ ∃ x y, ch = x ++ m ++ y ∧ u ++ x = a ++ u') := fun hr =>
    ⟨r, [], [], by simp, hr, stripOnly_nil, Or.inl rfl⟩
  rw [List.append_assoc, List.append_assoc] at h
  rcases List.append_eq_append_iff.mp h with ⟨x, rfl, hx⟩ | ⟨w, rfl, hw⟩
  · -- the run starts in the chunk, or among the bytes stripped after it
    rcases List.append_eq_append_iff.mp hx with ⟨z, rfl, rfl⟩ | ⟨c, rfl, hc⟩
    · exact allStrip hv.right.left
    · obtain ⟨m, v', y, rfl, hv', rfl⟩ := strip_right hv hc.symm
      exact ⟨[], m, v', rfl, stripOnly_nil, hv', Or.inr ⟨x, y, by simp, by simp⟩⟩
  · -- the run starts among the bytes stripped before the chunk
    rcases List.append_eq_append_iff.mp hw with ⟨z, rfl, -⟩ | ⟨r', rfl, hr'⟩
    · exact allStrip hu.right.left
    · obtain ⟨m, v', y, rfl, hv', rfl⟩ := strip_right hv hr'
      exact ⟨w, m, v', by simp, hu.right, hv', Or.inr ⟨[], y, by simp, by simp⟩⟩

/-- **The turn whose piece holds the run** puts it into the chunk. -/
theorem kept_of_piece {a r b text : Bytes} {chunks : List Bytes} (h : Woven text chunks) :
    Kept (a ++ r ++ b ++ text) (yieldChunk (strip (a ++ r ++ b)) ++ chunks) a r := by
  obtain ⟨-, u, v, hpiece, hu, hv⟩ := strip_spec (a ++ r ++ b)
  obtain ⟨u', m, v', hr, hu', hv', hm⟩ := strip_overlap hu hv hpiece.symm
  refine ⟨u', m, v', hr, hu', hv', ?_⟩
  rcases hm with hm | ⟨x, y, hch, hx⟩
  · exact Or.inl hm
  · by_cases hempty : strip (a ++ r ++ b) = []
    · rw [hempty] at hch
      obtain ⟨hxm, -⟩ := List.append_eq_nil_iff.mp hch.symm
      exact Or.inl (List.append_eq_nil_iff.mp hxm).2
    · have hyield : yieldChunk (strip (a ++ r ++ b)) = [strip (a ++ r ++ b)] :=
        if_neg (by rwa [List.isEmpty_iff])
      refine Or.inr ⟨[], strip (a ++ r ++ b), chunks, u, v ++ text, x, y, ?_, ?_, .last hu,
        h.prepend hv, hch, hx⟩
      · rw [hyield]
        rfl
      · conv => lhs; rw [hpiece]
        simp

/-- The same for the first `p` bytes of a text. -/
theorem kept_of_take {a r b text : Bytes} {chunks : List Bytes} {p : Nat}
    (htext : text = a ++ r ++ b) (hp : a.length + r.length ≤ p) (h : Woven (text.drop p) chunks) :
    Kept text (yieldChunk (strip (text.take p)) ++ chunks) a r := by
  have htake : text.take p = a ++ r ++ b.take (p - (a ++ r).length) := by
    rw [htext, List.take_append, List.take_of_length_le]
    rw [List.length_append]
    exact hp
  have hkept := kept_of_piece (a := a) (r := r) (b := b.take (p - (a ++ r).length)) h
  rwa [← htake, List.take_append_drop] at hkept

/-! ## The turns before -/

/-- A turn that does not reach the run leaves it to the rest of the text. -/
theorem Kept.lift {w text a r : Bytes} {first chunks : List Bytes} (h : Kept text chunks a r)
    (lift : ∀ p before, Woven p before → Woven (w ++ p) (first ++ before)) :
    Kept (w ++ text) (first ++ chunks) (w ++ a) r := by
  obtain ⟨u, m, v, hr, hu, hv, hm⟩ := h
  refine ⟨u, m, v, hr, hu, hv, hm.imp_right ?_⟩
  rintro ⟨before, c, after, p, q, x, y, rfl, rfl, hp, hq, hc, hx⟩
  exact ⟨first ++ before, c, after, w ++ p, q, x, y, by simp, by simp, lift p before hp, hq, hc,
    by rw [List.append_assoc, hx, List.append_assoc]⟩

/-- A strip byte at the start of a run may be taken off. -/
theorem Kept.cons {text a r : Bytes} {chunks : List Bytes} {s : UInt8}
    (h : Kept text chunks (a ++ [s]) r) (hs : isStripByte s = true) :
    Kept text chunks a (s :: r) := by
  obtain ⟨u, m, v, rfl, hu, hv, hm⟩ := h
  refine ⟨s :: u, m, v, rfl, List.forall_mem_cons.mpr ⟨hs, hu⟩, hv, hm.imp_right ?_⟩
  rintro ⟨before, c, after, p, q, x, y, hchunks, htext, hp, hq, hc, hx⟩
  exact ⟨before, c, after, p, q, x, y, hchunks, htext, hp, hq, hc, by rw [hx]; simp⟩

/-- **A turn whose piece ends before the run.** -/
theorem kept_of_drop {delimiter : UInt8 → Bool} {a r b text : Bytes} {chunks : List Bytes} {p : Nat}
    (htext : text = a ++ r ++ b) (run : Run delimiter a r b) (hp : p ≤ a.length)
    (h : ∀ a', Run delimiter a' r b → text.drop p = a' ++ r ++ b →
      Kept (text.drop p) chunks a' r) :
    Kept text (yieldChunk (strip (text.take p)) ++ chunks) a r := by
  have ha : a = text.take p ++ a.drop p := by
    rw [htext, List.append_assoc, List.take_append_of_le_length hp, List.take_append_drop]
  have hdrop : text.drop p = a.drop p ++ r ++ b := by
    rw [htext, List.append_assoc, List.drop_append_of_le_length hp, List.append_assoc]
  rw [ha] at run
  have hkept := (h (a.drop p) run.of_append hdrop).lift fun q before hq => hq.yield (text.take p)
  rwa [List.take_append_drop, ← ha] at hkept

/-- **A turn that skips a strip byte**, before the run or at its start. -/
theorem kept_of_skip {delimiter : UInt8 → Bool} {a r b text : Bytes} {chunks : List Bytes}
    {x : UInt8} (hx : isStripByte x = true) (htext : x :: text = a ++ r ++ b)
    (run : Run delimiter a r b)
    (h : ∀ a' r', Run delimiter a' r' b → text = a' ++ r' ++ b → r'.length ≤ r.length →
      Kept text chunks a' r') : Kept (x :: text) chunks a r := by
  have lift : ∀ q before, Woven q before → Woven ([x] ++ q) ([] ++ before) :=
    fun q before hq => hq.prepend (List.forall_mem_singleton.mpr hx)
  show Kept ([x] ++ text) ([] ++ chunks) a r
  cases a with
  | cons y a =>
      rw [List.cons_append, List.cons_append, List.cons.injEq] at htext
      obtain ⟨rfl, htext⟩ := htext
      have run' : Run delimiter a r b := Run.of_append (w := [x]) run
      exact (h a r run' htext (Nat.le_refl _)).lift lift
  | nil =>
      cases r with
      | nil => exact kept_of_stripOnly stripOnly_nil
      | cons y r =>
          rw [List.nil_append, List.cons_append, List.cons.injEq] at htext
          obtain ⟨rfl, htext⟩ := htext
          exact ((h [] r run.tail htext (Nat.le_succ _)).lift lift).cons hx

/-! ## Where the split point is -/

/-- A hard split right before a strip byte stays there. -/
theorem hardSplit_at_strip {escaped : Bool} {a b : Bytes} {x : UInt8}
    (h : Whole escaped (a ++ x :: b)) (hx : isStripByte x = true) :
    hardSplit escaped (a ++ x :: b) a.length = a.length := by
  obtain ⟨hascii, htail, -⟩ := stripByte_plain hx
  have hc := Utf8.not_cont_of_ascii hascii
  have hwalk : walkBack (a ++ x :: b) a.length = a.length := by
    refine Nat.le_antisymm (walkBack_spec _ _).1 (le_walkBack (Nat.le_refl _) ?_)
    rw [List.getElem?_append_right (Nat.le_refl _), Nat.sub_self]
    rw [← isContinuation_iff] at hc
    simpa using hc
  rw [hardSplit, hwalk]
  cases escaped with
  | false => rfl
  | true => exact adjustXmlEntity_start (whole_true.mp h) htail hc

/-- **No split point falls into a run that fits.** -/
theorem splitPoint_outside {escaped : Bool} {text a r b : Bytes} {limit : Nat} {nl sp : Bool}
    (h : Fits escaped limit text) (hlimit : 0 < limit) (hlen : limit < text.length)
    (htext : text = a ++ r ++ b) (run : Run (isDelimiter nl sp) a r b) (hr : r.length ≤ limit) :
    splitPoint text limit nl sp escaped ≤ a.length ∨
      a.length + r.length ≤ splitPoint text limit nl sp escaped := by
  rcases splitPoint_cases nl sp h.whole hlimit with ⟨u, x, v, heq, hx, -, hp⟩ | ⟨hnone, hp⟩
  · rw [hp]
    exact run.delimiter_outside (heq.symm.trans htext) hx
  · rcases List.eq_nil_or_concat a with rfl | ⟨a, y, rfl⟩
    · -- a run at the start that fits ends at a delimiter, right behind the limit
      refine Or.inr ?_
      cases b with
      | nil =>
          rw [htext, List.append_nil, List.nil_append] at hlen
          omega
      | cons x b =>
          have hx := run.right x rfl
          rw [List.nil_append] at htext
          have hsize : r.length = limit := by
            refine Nat.le_antisymm hr (Nat.le_of_not_lt fun hlt => ?_)
            have hin : x ∈ text.take limit := by
              rw [htext]
              exact Search.mem_take_append_cons b hlt
            rw [hnone x hin] at hx
            cases hx
          rw [hp, htext, ← hsize]
          have hwhole := h.whole
          rw [htext] at hwhole
          rw [hardSplit_at_strip hwhole (isStripByte_of_isDelimiter hx), List.length_nil]
          omega
    · -- the run starts after a delimiter, which is not in the first `limit` bytes
      refine Or.inl ?_
      have hy := run.left y (by simp)
      have hfar : limit ≤ a.length := by
        apply Nat.le_of_not_lt
        intro hlt
        have hin : y ∈ text.take limit := by
          rw [htext, List.concat_eq_append, List.append_assoc, List.append_assoc]
          exact Search.mem_take_append_cons (r ++ b) hlt
        rw [hnone y hin] at hy
        cases hy
      have hle := (splitPoint_good nl sp h hlimit hlen).le
      rw [List.concat_eq_append, List.length_append]
      omega

/-! ## The loop -/

/-- **A run that fits is kept**, through all turns of the loop. -/
theorem splitByLimit_kept {escaped : Bool} {text a r b : Bytes} {limit : Nat} {nl sp : Bool}
    (h : Fits escaped limit text) (hlimit : 0 < limit) (htext : text = a ++ r ++ b)
    (run : Run (isDelimiter nl sp) a r b) (hr : r.length ≤ limit) :
    Kept text (splitByLimit text limit nl sp escaped) a r := by
  induction hn : text.length using Nat.strongRecOn generalizing text a r with
  | ind n ih =>
      by_cases hlen : limit < text.length
      · obtain ⟨hle, hleft, hright, hprogress⟩ := splitPoint_good nl sp h hlimit hlen
        have houtside := splitPoint_outside h hlimit hlen htext run hr
        rw [splitByLimit_turn hlen]
        generalize splitPoint text limit nl sp escaped = p at hle hleft hright hprogress houtside ⊢
        rcases Nat.eq_zero_or_pos p with rfl | hp
        · obtain ⟨x, rest, rfl, hx⟩ := hprogress rfl
          have hrest : Fits escaped limit rest :=
            Fits.of_strip (u := [x]) (v := []) (List.forall_mem_singleton.mpr hx) stripOnly_nil
              (by simpa using h)
          rw [List.length_cons] at hn
          exact kept_of_skip hx htext run fun a' r' run' htext' hr' =>
            ih rest.length (by omega) hrest htext' run' (Nat.le_trans hr' hr) rfl
        · rw [if_pos hp]
          rcases houtside with hbefore | hafter
          · have hshort : (text.drop p).length < n := by
              rw [List.length_drop]
              omega
            exact kept_of_drop htext run hbefore fun a' run' htext' =>
              ih _ hshort hright htext' run' hr rfl
          · exact kept_of_take htext hafter (splitByLimit_fits nl sp hlimit hright).1
      · -- the rest of the text is one piece
        rw [splitByLimit, if_neg hlen, htext]
        have hkept := kept_of_piece (a := a) (r := r) (b := b) (Woven.last stripOnly_nil)
        rwa [List.append_nil, List.append_nil] at hkept

namespace TextChunker
variable (t : TextChunker)

/-- **A word that fits is never cut.**  In the text that is split, escaped or normalized, every
run of bytes between enabled delimiters that is no longer than the limit is in one chunk, but
for strip bytes at its ends. -/
theorem chunk_keeps_words {input : Bytes} (h : Valid input) (hlimit : 5 ≤ t.opts.maxChunkSize) :
    ∃ norm chunks, TextNormalizer.normalize input = .ok norm ∧ t.chunk input = .ok chunks ∧
      ∀ a r b, t.workText norm = a ++ r ++ b →
        Run (isDelimiter t.opts.preferSentenceBoundary t.opts.preferWordBoundary) a r b →
        r.length ≤ t.opts.maxChunkSize → Kept (t.workText norm) (chunks.map t.measured) a r := by
  obtain ⟨hnorm, hvalid⟩ := TextNormalizer.normalize_of_valid h
  refine ⟨_, _, hnorm, t.chunk_of_valid h, fun a r b htext run hr => ?_⟩
  have hmeasured : ((t.pieces (normalizeLoop input)).map t.finish).map t.measured =
      t.pieces (normalizeLoop input) := by
    rw [List.map_map]
    exact List.map_id'' t.measured_finish _
  rw [hmeasured]
  exact splitByLimit_kept ((t.whole_workText hvalid).fits hlimit) t.maxChunkSize_pos htext run hr

set_option maxRecDepth 10000 in
/-- A word of exactly the limit, with an entity in it. -/
theorem chunk_keeps_words_entity :
    let t : TextChunker := ⟨{ maxChunkSize := 8 }, by decide⟩
    ∃ chunks, t.chunk (lit "ab c&de fg") = .ok chunks ∧
      Kept (lit "ab c&amp;de fg") chunks (lit "ab ") (lit "c&amp;de") := by
  intro t
  have hvalid : Valid (lit "ab c&de fg") := ⟨"ab c&de fg".toList, by decide⟩
  obtain ⟨norm, chunks, hnorm, hchunk, hkept⟩ := t.chunk_keeps_words hvalid (by decide)
  obtain rfl : lit "ab c&de fg" = norm := by
    have hloop : normalizeLoop (lit "ab c&de fg") = lit "ab c&de fg" := by
      rw [normalizeLoop_eq_map]
      decide
    rw [(TextNormalizer.normalize_of_valid hvalid).1, hloop] at hnorm
    exact Except.ok.inj hnorm
  have run : Run (isDelimiter true true) (lit "ab ") (lit "c&amp;de") (lit " fg") := by
    refine ⟨by decide, fun x hx => ?_, fun x hx => ?_⟩
    · obtain rfl : 0x20 = x := Option.some.inj hx
      rfl
    · obtain rfl : 0x20 = x := Option.some.inj hx
      rfl
  have hmeasured : chunks.map t.measured = chunks := List.map_id chunks
  have hword := hkept _ _ _ rfl run (by decide)
  rw [hmeasured] at hword
  exact ⟨chunks, hchunk, hword⟩

end TextChunker
end EdgeTts
