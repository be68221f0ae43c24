import EdgeTts.Lib.StableSort
import EdgeTts.Subtitle.SubtitleTime
import Mathlib.Data.List.DropRight

/-!
# `subtitles/SrtComposer.cpp`

Cues are sorted, filtered, numbered and written as blocks that end in a blank line.
`decode` reads such a text back; `decode_compose` says that it finds exactly the kept
cues again, because no content can hold a blank line (`Legal`).
-/
namespace EdgeTts

/-- `SubtitleCue`; `stop` is the source's `end`. -/
structure SubtitleCue where
  start : SubtitleTime
  stop : SubtitleTime
  text : Bytes
  deriving DecidableEq, Repr

/-- `'\n'`. -/
def lf : UInt8 := 0x0A

/-- The loop that collapses newlines; the flag is `prev_nl`. -/
def collapse : Bool → Bytes → Bytes
  | _, [] => []
  | prevNl, c :: s =>
      if c = lf then if prevNl then collapse true s else c :: collapse true s
      else c :: collapse false s

/-- `make_legal_content`. -/
def makeLegalContent (text : Bytes) : Bytes :=
  collapse false ((text.dropWhile (· == lf)).rdropWhile (· == lf))

/-- `is_blank`. -/
def isBlank (text : Bytes) : Bool :=
  text.all fun c => c == 0x20 || c == 0x09 || c == 0x0D || c == lf

namespace SrtComposer

/-- The comparison of `std::stable_sort`. -/
def before (a b : SubtitleCue) : Bool :=
  if a.start.millis ≠ b.start.millis then a.start.millis < b.start.millis
  else a.stop.millis < b.stop.millis

/-- The sorted positions of the cues. -/
def order (cues : List SubtitleCue) : List (Fin cues.length) :=
  (List.finRange cues.length).insertionSort fun i j => ¬ before (cues.get j) (cues.get i)

/-- The cue is written. -/
def keeps (cue : SubtitleCue) : Bool := !(cue.start.millis ≥ cue.stop.millis) && !isBlank cue.text

/-- One block. -/
def block (idx : Int32) (cue : SubtitleCue) : Bytes :=
  Decimal.ofInt 1 idx.toInt ++ lf :: (cue.start.toSrtTimestamp ++ lit " --> " ++
    cue.stop.toSrtTimestamp ++ lf :: (makeLegalContent cue.text ++ [lf, lf]))

/-- The loop over the sorted cues.  Nothing is made of the increment after the last one,
which could overflow. -/
def composeLoop : Int32 → List SubtitleCue → Bytes
  | _, [] => []
  | idx, cue :: cues =>
      if cue.start.millis ≥ cue.stop.millis then composeLoop idx cues
      else if isBlank cue.text then composeLoop idx cues
      else block idx cue ++ composeLoop (idx + 1) cues

/-- `SrtComposer::compose`. -/
def compose (cues : List SubtitleCue) : Result Bytes :=
  .ok (composeLoop 1 ((order cues).map cues.get))

/-! ## Contents -/

end SrtComposer

/-- A text that can stand in a block: it is not empty, starts and ends with no newline,
and holds no blank line. -/
structure Legal (content : Bytes) : Prop where
  head : ∃ c rest, content = c :: rest ∧ c ≠ lf
  last : content.getLast? ≠ some lf
  noBlankLine : ¬ [lf, lf] <:+: content

/-- Newlines are collapsed; after one, another is left out. -/
theorem collapse_spec (s : Bytes) : (collapse true s).head? ≠ some lf ∧
    ∀ prevNl, ¬ [lf, lf] <:+: collapse prevNl s := by
  induction s with
  | nil => simp [collapse]
  | cons c s ih =>
      obtain ⟨hhead, hfree⟩ := ih
      by_cases hc : c = lf
      · subst hc
        refine ⟨by simpa [collapse] using hhead, fun prevNl => ?_⟩
        cases prevNl with
        | true => simpa [collapse] using hfree true
        | false =>
            simp only [collapse, if_true, Bool.false_eq_true, if_false, List.infix_cons_iff,
              List.cons_prefix_cons, true_and, not_or]
            refine ⟨fun hp => hhead ?_, hfree true⟩
            obtain ⟨rest, hrest⟩ := hp
            rw [← hrest]
            rfl
      · refine ⟨by simp [collapse, hc], fun prevNl => ?_⟩
        simp only [collapse, hc, if_false, List.infix_cons_iff, List.cons_prefix_cons, not_or,
          not_and]
        exact ⟨fun h => absurd h.symm hc, hfree false⟩

/-- A last byte that is no newline is kept. -/
theorem collapse_append {c : UInt8} (hc : c ≠ lf) (s : Bytes) (prevNl : Bool) :
    ∃ r, collapse prevNl (s ++ [c]) = r ++ [c] := by
  induction s generalizing prevNl with
  | nil => exact ⟨[], by simp [collapse, hc]⟩
  | cons d s ih =>
      obtain ⟨r, hr⟩ := ih true
      obtain ⟨r', hr'⟩ := ih false
      rw [List.cons_append, collapse]
      split
      · split
        · exact ⟨r, hr⟩
        · exact ⟨d :: r, by rw [hr]; rfl⟩
      · exact ⟨d :: r', by rw [hr']; rfl⟩

/-- **A text that is not blank is made legal.** -/
theorem makeLegalContent_legal {text : Bytes} (h : isBlank text = false) :
    Legal (makeLegalContent text) := by
  -- a byte that is no newline stops the stripping on both sides
  obtain ⟨x, hx, hlf⟩ : ∃ x ∈ text, x ≠ lf := by
    by_contra! hall
    have hblank : isBlank text = true := List.all_eq_true.mpr fun c hc => by simp [hall c hc]
    rw [h] at hblank
    cases hblank
  have hne : text.dropWhile (· == lf) ≠ [] := fun hnil =>
    hlf (by simpa using List.dropWhile_eq_nil_iff.mp hnil x hx)
  obtain ⟨c, d, hd⟩ := List.exists_cons_of_ne_nil hne
  have hc : c ≠ lf := by
    have := List.head_dropWhile_not (· == lf) hne
    simpa [hd] using this
  have hs : ((c :: d).rdropWhile (· == lf)) ≠ [] := fun hnil => hc (by
    simpa using List.rdropWhile_eq_nil_iff.mp hnil c (List.mem_cons_self ..))
  rw [makeLegalContent, hd]
  obtain ⟨s, hs'⟩ : ∃ s, (c :: d).rdropWhile (· == lf) = c :: s := by
    obtain ⟨c', s, heq⟩ := List.exists_cons_of_ne_nil hs
    have hp := List.rdropWhile_prefix (· == lf) (c :: d)
    rw [heq] at hp
    exact ⟨s, by rw [heq, (List.cons_prefix_cons.mp hp).1]⟩
  have hlast := List.rdropWhile_last_not (· == lf) (c :: d) hs
  refine ⟨⟨c, collapse false s, by rw [hs', collapse, if_neg hc], hc⟩, ?_,
    (collapse_spec _).2 false⟩
  obtain ⟨r, hr⟩ := collapse_append (c := ((c :: d).rdropWhile (· == lf)).getLast hs)
    (by simpa using hlast) ((c :: d).rdropWhile (· == lf)).dropLast false
  rw [List.dropLast_append_getLast] at hr
  rw [hr, List.getLast?_append]
  simpa using hlast

namespace SrtComposer

/-! ## The order -/

theorem before_iff (a b : SubtitleCue) : before a b = true ↔
    a.start.millis < b.start.millis ∨
      a.start.millis = b.start.millis ∧ a.stop.millis < b.stop.millis := by
  rw [before]
  split <;> simp <;> omega

/-- The order of two cues in the file: by start, by end, and then as they were given. -/
def Precedes (cues : List SubtitleCue) (i j : Fin cues.length) : Prop :=
  before (cues.get i) (cues.get j) = true ∨ before (cues.get j) (cues.get i) = false ∧ i < j

/-- **The cues are sorted stably by start and end.** -/
theorem order_spec (cues : List SubtitleCue) :
    (order cues).Perm (List.finRange cues.length) ∧ (order cues).Pairwise (Precedes cues) := by
  refine ⟨List.perm_insertionSort _ _, ?_⟩
  have htotal : Std.Total fun i j : Fin cues.length => ¬ before (cues.get j) (cues.get i) = true :=
    ⟨fun i j => by rw [before_iff, before_iff]; omega⟩
  have htrans : IsTrans _ fun i j : Fin cues.length => ¬ before (cues.get j) (cues.get i) = true :=
    ⟨fun i j k => by rw [before_iff, before_iff, before_iff]; omega⟩
  refine (StableSort.pairwise_insertionSort (List.pairwise_lt_finRange _)).imp ?_
  rintro i j ⟨hle, htie⟩
  by_cases h : before (cues.get i) (cues.get j) = true
  · exact .inl h
  · exact .inr ⟨Bool.eq_false_iff.mpr hle, htie h⟩

/-! ## The text as blocks -/

/-- A block without its blank line. -/
def body (idx : Nat) (cue : SubtitleCue) : Bytes :=
  Decimal.pad 1 (Decimal.ofNat idx) ++ lf :: (cue.start.toSrtTimestamp ++ lit " --> " ++
    cue.stop.toSrtTimestamp ++ lf :: makeLegalContent cue.text)

theorem block_eq {idx : Int32} {n : Nat} (h : idx.toInt = n) (cue : SubtitleCue) :
    block idx cue = body n cue ++ [lf, lf] := by
  rw [block, body, h, Decimal.ofInt_of_nonneg (by omega), Int.toNat_natCast]
  simp

theorem keeps_eq_true {cue : SubtitleCue} : keeps cue = true ↔
    cue.start.millis < cue.stop.millis ∧ isBlank cue.text = false := by
  simp [keeps]

/-- The loop writes the kept cues, numbered from `idx` on. -/
theorem composeLoop_eq {cues : List SubtitleCue} : ∀ {idx : Int32} {n : Nat},
    (cues.filter keeps ≠ [] → idx.toInt = n ∧ n + (cues.filter keeps).length ≤ 2 ^ 31) →
    composeLoop idx cues =
      ((cues.filter keeps).zipIdx n).flatMap fun p => body p.2 p.1 ++ [lf, lf] := by
  induction cues with
  | nil => intro idx n _; rfl
  | cons cue cues ih =>
      intro idx n h
      by_cases hkeep : keeps cue = true
      · obtain ⟨hlt, hblank⟩ := keeps_eq_true.mp hkeep
        rw [List.filter_cons_of_pos hkeep] at h ⊢
        obtain ⟨hidx, hn⟩ := h (by simp)
        rw [List.length_cons] at hn
        rw [composeLoop, if_neg (by omega), if_neg (by simp [hblank]), block_eq hidx,
          List.zipIdx_cons, List.flatMap_cons, ih (n := n + 1) fun hne => ?_]
        -- the next number is needed only if another cue is kept, so it fits
        have hpos := List.length_pos_of_ne_nil hne
        refine ⟨?_, by omega⟩
        rw [Int32.toInt_add, hidx, Int.bmod_eq_of_le (by simp; omega) (by simp; omega)]
        rfl
      · rw [List.filter_cons_of_neg hkeep] at h ⊢
        rw [keeps_eq_true, not_and, Bool.not_eq_false] at hkeep
        rw [composeLoop]
        split
        · exact ih h
        · rw [if_pos (hkeep (by omega))]
          exact ih h

/-! ## Reading the text back -/

end SrtComposer

structure SrtEntry where
  index : Nat
  start : Nat
  stop : Nat
  content : Bytes
  deriving DecidableEq, Repr

/-- A block is an index line, a line of two times, and the content. -/
def readBlock (block : Bytes) : Option SrtEntry := do
  let (index, block) ← Search.splitFirst [lf] block
  let (times, content) ← Search.splitFirst [lf] block
  let (start, stop) ← Search.splitFirst (lit " --> ") times
  return ⟨← readNumber index, ← readTimestamp start, ← readTimestamp stop, content⟩

/-- A file is cut at every blank line, and each piece is read as a block. -/
def decode (srt : Bytes) : Option (List SrtEntry) :=
  let pieces := Search.splitOn [lf, lf] srt
  if pieces.getLast? = some [] then pieces.dropLast.mapM readBlock else none

namespace SrtComposer

theorem lf_not_mem_number (n : Nat) : lf ∉ Decimal.pad 1 (Decimal.ofNat n) := fun h =>
  absurd (Decimal.isDigit_of_mem_pad (fun _ => Decimal.isDigit_of_mem_ofNat) h) (by decide)

theorem lf_not_mem_times (a b : Nat) : lf ∉ srtTimestamp a ++ lit " --> " ++ srtTimestamp b := by
  have hstamp : ∀ n, lf ∉ srtTimestamp n := fun n h => by
    rcases SubtitleTime.mem_srtTimestamp h with h | h | h <;> exact absurd h (by decide)
  simp only [List.mem_append, not_or]
  exact ⟨⟨hstamp a, by decide⟩, hstamp b⟩

theorem body_eq (idx : Nat) (cue : SubtitleCue) : body idx cue =
    Decimal.pad 1 (Decimal.ofNat idx) ++ lf :: (srtTimestamp cue.start.millis ++ lit " --> " ++
      srtTimestamp cue.stop.millis ++ lf :: makeLegalContent cue.text) := by
  rw [body, SubtitleTime.toSrtTimestamp_eq, SubtitleTime.toSrtTimestamp_eq]

/-- No block holds a blank line, nor makes one with the blank line after it. -/
theorem fresh_body (idx : Nat) {cue : SubtitleCue} (legal : Legal (makeLegalContent cue.text)) :
    Search.Fresh [lf, lf] (body idx cue) := by
  obtain ⟨⟨c, rest, hcontent, hc⟩, hlast, hfree⟩ := legal
  -- the newline before the content: the content does not start with another one
  have hcontent' : Search.NoStart [lf, lf] (lf :: makeLegalContent cue.text) [lf, lf] := by
    refine ⟨fun hp => hc ?_, Search.fresh_twice hfree hlast⟩
    rw [hcontent] at hp
    exact (List.cons_prefix_cons.mp (List.cons_prefix_cons.mp hp).2).1.symm
  have htimes := lf_not_mem_times cue.start.millis cue.stop.millis
  obtain ⟨d, times, hd⟩ : ∃ d times,
      srtTimestamp cue.start.millis ++ lit " --> " ++ srtTimestamp cue.stop.millis = d :: times :=
    List.exists_cons_of_ne_nil (by simp [srtTimestamp])
  rw [body_eq]
  refine Search.noStart_append.mpr ⟨Search.noStart_of_not_mem (lf_not_mem_number idx), ?_⟩
  refine ⟨fun hp => htimes ?_,
    Search.noStart_append.mpr ⟨Search.noStart_of_not_mem htimes, hcontent'⟩⟩
  rw [hd] at hp ⊢
  rw [(List.cons_prefix_cons.mp (List.cons_prefix_cons.mp hp).2).1]
  exact .head _

/-- **A block is read back.** -/
theorem readBlock_body (idx : Nat) (cue : SubtitleCue) : readBlock (body idx cue) =
    some ⟨idx, cue.start.millis, cue.stop.millis, makeLegalContent cue.text⟩ := by
  have hline : ∀ {line : Bytes} (rest : Bytes), lf ∉ line →
      Search.splitFirst [lf] (line ++ lf :: rest) = some (line, rest) := fun {line} rest h => by
    rw [List.append_cons]
    exact Search.splitFirst_append rest (Search.fresh_of_not_mem h)
  have harrow : Search.splitFirst (lit " --> ") (srtTimestamp cue.start.millis ++ lit " --> " ++
      srtTimestamp cue.stop.millis) =
      some (srtTimestamp cue.start.millis, srtTimestamp cue.stop.millis) := by
    refine Search.splitFirst_append _ (Search.fresh_of_not_mem fun h => ?_)
    rcases SubtitleTime.mem_srtTimestamp h with h | h | h <;> exact absurd h (by decide)
  rw [body_eq, readBlock]
  simp only [hline _ (lf_not_mem_number idx), hline _ (lf_not_mem_times _ _), harrow,
    readNumber_pad, readTimestamp_srtTimestamp, Option.bind_eq_bind, Option.bind_some,
    Option.pure_def]

theorem mapM_readBlock (pieces : List (SubtitleCue × Nat)) :
    (pieces.map fun p => body p.2 p.1).mapM readBlock = some (pieces.map fun p =>
      ⟨p.2, p.1.start.millis, p.1.stop.millis, makeLegalContent p.1.text⟩) := by
  induction pieces with
  | nil => rfl
  | cons p pieces ih =>
      rw [List.map_cons, List.mapM_cons, readBlock_body, ih]
      rfl

/-- The positions of the cues that are written, in order. -/
def printed (cues : List SubtitleCue) : List (Fin cues.length) :=
  (order cues).filter fun i => keeps (cues.get i)

theorem mem_printed {cues : List SubtitleCue} (i : Fin cues.length) : i ∈ printed cues ↔
    (cues.get i).start.millis < (cues.get i).stop.millis ∧ isBlank (cues.get i).text = false := by
  rw [printed, List.mem_filter, keeps_eq_true, (order_spec cues).1.mem_iff]
  simp

theorem printed_pairwise (cues : List SubtitleCue) : (printed cues).Pairwise (Precedes cues) :=
  (order_spec cues).2.filter _

/-- A printed cue that ends before another one starts stands before it. -/
theorem lt_of_stop_le_start {cues : List SubtitleCue} {i j : Nat} {p q : Fin cues.length}
    (hp : (printed cues)[i]? = some p) (hq : (printed cues)[j]? = some q)
    (hle : (cues.get p).stop.millis ≤ (cues.get q).start.millis) : i < j := by
  have hkept := ((mem_printed p).mp (List.mem_of_getElem? hp)).1
  obtain ⟨hi, rfl⟩ := List.getElem?_eq_some_iff.mp hp
  obtain ⟨hj, rfl⟩ := List.getElem?_eq_some_iff.mp hq
  -- a kept cue has a positive length, so it cannot stand after one that starts at its end
  rcases lt_trichotomy i j with hlt | rfl | hgt
  · exact hlt
  · omega
  · have hprec := List.pairwise_iff_getElem.mp (printed_pairwise cues) j i hj hi hgt
    rw [Precedes, Bool.eq_false_iff, ne_eq, before_iff, before_iff] at hprec
    omega

theorem decode_bodies {pieces : List (SubtitleCue × Nat)}
    (legal : ∀ p ∈ pieces, Legal (makeLegalContent p.1.text)) :
    decode (pieces.flatMap fun p => body p.2 p.1 ++ [lf, lf]) = some (pieces.map fun p =>
      ⟨p.2, p.1.start.millis, p.1.stop.millis, makeLegalContent p.1.text⟩) := by
  have hfresh : ∀ b ∈ pieces.map fun p => body p.2 p.1, Search.Fresh [lf, lf] b := by
    intro b hb
    obtain ⟨p, hp, rfl⟩ := List.mem_map.mp hb
    exact fresh_body p.2 (legal p hp)
  have hsplit := Search.splitOn_flatMap (List.cons_ne_nil lf [lf]) [] hfresh
  have hempty : Search.splitOn [lf, lf] [] = [[]] := Search.splitOn_eq_singleton (by simp)
  rw [hempty, List.append_nil, List.flatMap_map] at hsplit
  rw [decode, hsplit]
  simp only [List.getLast?_concat, if_true, List.dropLast_concat, mapM_readBlock]

/-- The contents of the printed cues are legal. -/
theorem legal_of_mem_printed {cues : List SubtitleCue} : ∀ i ∈ printed cues,
    Legal (makeLegalContent (cues.get i).text) :=
  fun i hi => makeLegalContent_legal ((mem_printed i).mp hi).2

/-- The entries of the printed cues are read back. -/
theorem decode_printed {cues : List SubtitleCue} (h : cues.length < 2 ^ 31) :
    ∃ srt, compose cues = .ok srt ∧
      decode srt = some ((((printed cues).map cues.get).zipIdx 1).map fun p =>
        ⟨p.2, p.1.start.millis, p.1.stop.millis, makeLegalContent p.1.text⟩) := by
  obtain ⟨hperm, -⟩ := order_spec cues
  have hkept : ((order cues).map cues.get).filter keeps = (printed cues).map cues.get :=
    List.filter_map
  have hlength : (printed cues).length ≤ cues.length := by
    have := List.length_filter_le (fun i => keeps (cues.get i)) (order cues)
    rwa [hperm.length_eq, List.length_finRange] at this
  refine ⟨_, rfl, ?_⟩
  rw [composeLoop_eq (n := 1) fun _ => ⟨rfl, by rw [hkept, List.length_map]; omega⟩, hkept]
  refine decode_bodies fun p hp => ?_
  obtain ⟨i, hi, heq⟩ := List.mem_map.mp (List.fst_mem_of_mem_zipIdx hp)
  exact heq ▸ legal_of_mem_printed i hi

/-- **An SRT file is decoded to its cues.**  They are the kept ones, in the stable order
by start and end, numbered from 1, with their times and their legal contents. -/
theorem decode_compose {cues : List SubtitleCue} (h : cues.length < 2 ^ 31) :
    (∃ srt, compose cues = .ok srt ∧
      decode srt = some ((((printed cues).map cues.get).zipIdx 1).map fun p =>
        ⟨p.2, p.1.start.millis, p.1.stop.millis, makeLegalContent p.1.text⟩)) ∧
    (printed cues).Nodup ∧ (printed cues).Pairwise (Precedes cues) ∧
    (∀ i, i ∈ printed cues ↔ (cues.get i).start.millis < (cues.get i).stop.millis ∧
      isBlank (cues.get i).text = false) ∧
    ∀ i ∈ printed cues, Legal (makeLegalContent (cues.get i).text) := by
  obtain ⟨hperm, -⟩ := order_spec cues
  exact ⟨decode_printed h, (hperm.nodup_iff.mpr (List.nodup_finRange _)).filter _,
    printed_pairwise cues, mem_printed, legal_of_mem_printed⟩

/-- Two cues, the later one first, with a text that looks like a block. -/
theorem decode_compose_sample : ∃ srt,
    compose [⟨⟨2000, by decide⟩, ⟨400000000, by decide⟩, lit "b"⟩,
      ⟨⟨1000, by decide⟩, ⟨2000, by decide⟩,
        lit "\n1\n00:00:00,000 --> 00:00:01,000\n\n\na\n"⟩] = .ok srt ∧
    decode srt = some [⟨1, 1000, 2000, lit "1\n00:00:00,000 --> 00:00:01,000\na"⟩,
      ⟨2, 2000, 400000000, lit "b"⟩] := by
  obtain ⟨srt, hcompose, hdecode⟩ := (@decode_compose [
    ⟨⟨2000, by decide⟩, ⟨400000000, by decide⟩, lit "b"⟩, ⟨⟨1000, by decide⟩, ⟨2000, by decide⟩,
      lit "\n1\n00:00:00,000 --> 00:00:01,000\n\n\na\n"⟩] (by decide)).1
  refine ⟨srt, hcompose, hdecode.trans ?_⟩
  decide

end SrtComposer
end EdgeTts
