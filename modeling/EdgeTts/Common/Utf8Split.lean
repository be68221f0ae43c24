import EdgeTts.Lib.Cutting
import EdgeTts.Common.Utf8

/-!
# `split_utf8_by_byte_limit`

Every turn takes the text up to the last code-point boundary within the limit, or, where
there is none, one code point.  On valid UTF-8 and a limit of at least four bytes the second
case does not arise, and the pieces are those of the greedy method (`splitLoop_greedy`).
-/
namespace EdgeTts

open Utf8 (Valid Cont)

/-- The walk back over continuation bytes, of `safe_boundary` and of step 3 of
`split_by_limit`. -/
def walkBack (text : Bytes) : Nat → Nat
  | 0 => 0
  | splitAt + 1 =>
      if text[splitAt + 1]?.any isContinuation then walkBack text splitAt else splitAt + 1

/-- `safe_boundary`. -/
def safeBoundary (text : Bytes) (pos : Nat) : Nat :=
  if pos ≥ text.length then text.length else walkBack text pos

/-- `previous_code_point_boundary`. -/
def previousCodePointBoundary (text : Bytes) (index : Nat) : Nat := safeBoundary text index

theorem drop_ne_nil {text : Bytes} {pos : Nat} (h : pos < text.length) : text.drop pos ≠ [] := by
  intro hnil
  have := List.drop_eq_nil_iff.mp hnil
  omega

theorem nextCodePointBoundary_pos {text : Bytes} (h : text ≠ []) :
    0 < nextCodePointBoundary text := by
  cases text with
  | nil => exact absurd rfl h
  | cons b text =>
      rw [nextCodePointBoundary]
      omega

/-- Where the piece that starts at `pos` ends, when it is not the last one. -/
def pieceEnd (text : Bytes) (maxBytes pos : Nat) : Nat :=
  let «end» := previousCodePointBoundary text (pos + maxBytes)
  if «end» ≤ pos then pos + nextCodePointBoundary (text.drop pos) else «end»

theorem lt_pieceEnd {text : Bytes} {maxBytes pos : Nat} (h : pos < text.length) :
    pos < pieceEnd text maxBytes pos := by
  have := nextCodePointBoundary_pos (drop_ne_nil h)
  rw [pieceEnd]
  split <;> omega

/-- The loop of `split_utf8_by_byte_limit`. -/
def splitLoop (text : Bytes) (maxBytes pos : Nat) : List Bytes :=
  if h : pos < text.length then
    let remaining := text.length - pos
    if remaining ≤ maxBytes then [text.drop pos]
    else
      have : pos < pieceEnd text maxBytes pos := lt_pieceEnd h
      let «end» := pieceEnd text maxBytes pos
      (text.drop pos).take («end» - pos) :: splitLoop text maxBytes «end»
  else []
  termination_by text.length - pos

/-- `split_utf8_by_byte_limit`; `none` is the exception. -/
def splitUtf8ByByteLimit (text : Bytes) (maxBytes : Nat) : Option (List Bytes) :=
  if maxBytes = 0 then none else some (splitLoop text maxBytes 0)

/-! ## The walk -/

theorem walkBack_spec (text : Bytes) : ∀ n, walkBack text n ≤ n ∧
    (∀ j, walkBack text n < j → j ≤ n → text[j]?.any isContinuation = true) ∧
    (walkBack text n = 0 ∨ text[walkBack text n]?.any isContinuation = false)
  | 0 => ⟨Nat.le_refl 0, fun j hj hj' => by rw [walkBack] at hj; omega, Or.inl rfl⟩
  | n + 1 => by
      obtain ⟨hle, hall, hstop⟩ := walkBack_spec text n
      rw [walkBack]
      split
      · rename_i hc
        refine ⟨by omega, fun j hj hj' => ?_, hstop⟩
        rcases Nat.lt_or_ge n j with h | h
        · rwa [show j = n + 1 from by omega]
        · exact hall j hj h
      · rename_i hc
        exact ⟨Nat.le_refl _, fun j hj hj' => by omega, Or.inr (by simpa using hc)⟩

/-- The walk stops at any boundary that it meets. -/
theorem le_walkBack {text : Bytes} {p n : Nat} (hp : p ≤ n)
    (hb : text[p]?.any isContinuation = false) : p ≤ walkBack text n := by
  obtain ⟨-, hall, -⟩ := walkBack_spec text n
  apply Nat.le_of_not_lt
  intro hlt
  rw [hall p hlt hp] at hb
  cases hb

/-- A byte of a valid text that starts a code point. -/
theorem boundary_of_valid {text : Bytes} {p : Nat} (h : Valid (text.drop p)) :
    text[p]?.any isContinuation = false := by
  have hget : text[p]? = (text.drop p).head? := by rw [List.head?_drop]
  rw [hget]
  cases htext : text.drop p with
  | nil => rfl
  | cons b s =>
      rw [htext] at h
      have := h.head
      rw [← isContinuation_iff] at this
      simpa using this

/-- **The walk keeps at least one code point** of a valid text that starts at `p`, if there is
room for it. -/
theorem lt_walkBack {text s : Bytes} {c : Char} {p limit : Nat}
    (h : text.drop p = String.utf8EncodeChar c ++ s) (hs : Valid s)
    (hlimit : (String.utf8EncodeChar c).length ≤ limit) : p < walkBack text (p + limit) := by
  obtain ⟨b, t, hc, -⟩ := Utf8.encode_shape c
  have hnext : text.drop (p + (String.utf8EncodeChar c).length) = s := by
    rw [← List.drop_drop, h, List.drop_left]
  have hpos : 0 < (String.utf8EncodeChar c).length := by rw [hc]; exact Nat.succ_pos _
  have := le_walkBack (n := p + limit) (by omega) (boundary_of_valid (hnext ▸ hs))
  omega

/-! ## The pieces -/

/-- No continuation byte comes first. -/
def StartsCodePoint (s : Bytes) : Prop := ∀ x, s.head? = some x → ¬ Cont x

theorem startsCodePoint_of_valid {s : Bytes} (h : Valid s) : StartsCodePoint s := by
  intro x hx
  cases s with
  | nil => cases hx
  | cons b s => exact Option.some.inj hx ▸ h.head

theorem startsCodePoint_drop_iff {text : Bytes} {p : Nat} :
    StartsCodePoint (text.drop p) ↔ text[p]?.any isContinuation = false := by
  rw [StartsCodePoint, List.head?_drop]
  cases text[p]? with
  | none => simp
  | some x =>
      have := isContinuation_iff x
      simp [← this]

theorem startsCodePoint_next (text : Bytes) :
    StartsCodePoint (text.drop (nextCodePointBoundary text)) := by
  cases text with
  | nil => exact nofun
  | cons b s =>
      have hrest : (b :: s).drop (nextCodePointBoundary (b :: s)) = s.dropWhile isContinuation := by
        have hdrop : (s.takeWhile isContinuation ++ s.dropWhile isContinuation).drop
            (s.takeWhile isContinuation).length = s.dropWhile isContinuation := List.drop_left
        rw [List.takeWhile_append_dropWhile] at hdrop
        rw [nextCodePointBoundary, Nat.add_comm, List.drop_succ_cons, hdrop]
      intro x hx
      rw [hrest] at hx
      have hnot := List.head?_dropWhile_not isContinuation s
      rw [hx] at hnot
      rw [← isContinuation_iff]
      exact Bool.not_eq_true _ ▸ hnot

section
variable {text : Bytes} {maxBytes pos : Nat}

/-- A piece ends at a code-point boundary, on malformed text too. -/
theorem startsCodePoint_pieceEnd (text : Bytes) (maxBytes pos : Nat) :
    StartsCodePoint (text.drop (pieceEnd text maxBytes pos)) := by
  by_cases hpos : previousCodePointBoundary text (pos + maxBytes) ≤ pos
  · rw [pieceEnd, if_pos hpos, ← List.drop_drop]
    exact startsCodePoint_next _
  · rw [pieceEnd, if_neg hpos]
    unfold previousCodePointBoundary safeBoundary at hpos ⊢
    split
    · rw [List.drop_length]
      exact nofun
    · rename_i hlen
      rw [if_neg hlen] at hpos
      obtain ⟨-, -, hstop⟩ := walkBack_spec text (pos + maxBytes)
      exact startsCodePoint_drop_iff.mpr (hstop.resolve_left (by omega))

/-- **Valid text that is too long is cut at the last boundary within the limit.** -/
theorem pieceEnd_of_valid (h : Valid (text.drop pos)) (hmax : 4 ≤ maxBytes)
    (hlen : maxBytes < text.length - pos) :
    pieceEnd text maxBytes pos ≤ pos + maxBytes ∧
      ∀ p, p ≤ pos + maxBytes → StartsCodePoint (text.drop p) → p ≤ pieceEnd text maxBytes pos := by
  obtain ⟨c, s, htext, hs⟩ := h.exists_encode (drop_ne_nil (by omega))
  have hroom := lt_walkBack htext hs (Nat.le_trans (Utf8.length_encode_le c) hmax)
  have hprev : previousCodePointBoundary text (pos + maxBytes) = walkBack text (pos + maxBytes) :=
    if_neg (show ¬ pos + maxBytes ≥ text.length by omega)
  have hend : pieceEnd text maxBytes pos = walkBack text (pos + maxBytes) := by
    rw [pieceEnd, hprev, if_neg (Nat.not_le.mpr hroom)]
  rw [hend]
  obtain ⟨hle, -, -⟩ := walkBack_spec text (pos + maxBytes)
  exact ⟨hle, fun p hp hstart => le_walkBack hp (startsCodePoint_drop_iff.mp hstart)⟩

theorem splitLoop_flatten (text : Bytes) (maxBytes pos : Nat) :
    (splitLoop text maxBytes pos).flatten = text.drop pos := by
  induction pos using splitLoop.induct text maxBytes with
  | case1 pos hpos remaining hle =>
      rw [splitLoop, dif_pos hpos, if_pos hle, List.flatten_singleton]
  | case2 pos hpos remaining hle hlt «end» ih =>
      have hend : (text.drop pos).drop (pieceEnd text maxBytes pos - pos) =
          text.drop (pieceEnd text maxBytes pos) := by
        rw [List.drop_drop, Nat.add_sub_cancel' (Nat.le_of_lt hlt)]
      rw [splitLoop, dif_pos hpos, if_neg hle, List.flatten_cons, ih, ← hend,
        List.take_append_drop]
  | case3 pos hpos =>
      rw [splitLoop, dif_neg hpos, List.drop_of_length_le (Nat.le_of_not_lt hpos)]
      rfl

theorem splitLoop_nonempty (text : Bytes) (maxBytes pos : Nat) :
    ∀ piece ∈ splitLoop text maxBytes pos, piece ≠ [] := by
  induction pos using splitLoop.induct text maxBytes with
  | case1 pos hpos remaining hle =>
      rw [splitLoop, dif_pos hpos, if_pos hle, List.forall_mem_singleton]
      exact drop_ne_nil hpos
  | case2 pos hpos remaining hle hlt «end» ih =>
      rw [splitLoop, dif_pos hpos, if_neg hle, List.forall_mem_cons]
      refine ⟨fun hnil => ?_, ih⟩
      have := congrArg List.length hnil
      rw [List.length_take, List.length_drop, List.length_nil] at this
      omega
  | case3 pos hpos =>
      rw [splitLoop, dif_neg hpos]
      exact nofun

/-- **On valid text the loop is the greedy method**, and its pieces are valid and within the
limit. -/
theorem splitLoop_greedy (hmax : 4 ≤ maxBytes) (h : Valid (text.drop pos)) :
    Cutting.Greedy StartsCodePoint maxBytes (text.drop pos) (splitLoop text maxBytes pos) ∧
      ∀ piece ∈ splitLoop text maxBytes pos, Valid piece ∧ piece.length ≤ maxBytes := by
  induction pos using splitLoop.induct text maxBytes with
  | case1 pos hpos remaining hle =>
      have hlen : (text.drop pos).length ≤ maxBytes := by rwa [List.length_drop]
      rw [splitLoop, dif_pos hpos, if_pos hle]
      refine ⟨?_, List.forall_mem_singleton.mpr ⟨h, hlen⟩⟩
      have hlast := Cutting.Greedy.cons (C := StartsCodePoint) (n := maxBytes) (drop_ne_nil hpos)
        (fun a b hab _ _ => ?_) Cutting.Greedy.nil
      · rwa [List.append_nil] at hlast
      · have := congrArg List.length hab
        rw [List.append_nil, List.length_append] at this
        omega
  | case2 pos hpos remaining hle hlt «end» ih =>
      obtain ⟨hend, hlongest⟩ := pieceEnd_of_valid h hmax (Nat.lt_of_not_le hle)
      have hsplit : (text.drop pos).take (pieceEnd text maxBytes pos - pos) ++
          text.drop (pieceEnd text maxBytes pos) = text.drop pos := by
        have := List.take_append_drop (pieceEnd text maxBytes pos - pos) (text.drop pos)
        rwa [List.drop_drop, Nat.add_sub_cancel' (Nat.le_of_lt hlt)] at this
      have hlen : ((text.drop pos).take (pieceEnd text maxBytes pos - pos)).length =
          pieceEnd text maxBytes pos - pos := by
        rw [List.length_take, List.length_drop]
        omega
      obtain ⟨hpiece, hrest⟩ := Valid.cut (startsCodePoint_pieceEnd text maxBytes pos)
        (hsplit.symm ▸ h)
      obtain ⟨hgreedy, hall⟩ := ih hrest
      rw [splitLoop, dif_pos hpos, if_neg hle]
      refine ⟨?_, List.forall_mem_cons.mpr ⟨⟨hpiece, by omega⟩, hall⟩⟩
      have hne : (text.drop pos).take (pieceEnd text maxBytes pos - pos) ≠ [] :=
        List.ne_nil_of_length_pos (by omega)
      have hcons := Cutting.Greedy.cons (C := StartsCodePoint) (n := maxBytes) hne
        (fun a b hab ha hb => ?_) hgreedy
      · rwa [hsplit] at hcons
      · -- another cut within the limit is a boundary as well, so it comes no later
        rw [hsplit] at hab
        have hdrop : text.drop (pos + a.length) = b := by
          rw [← List.drop_drop, hab, List.drop_left]
        have := hlongest (pos + a.length) (by omega) (hdrop ▸ hb)
        omega
  | case3 pos hpos =>
      rw [splitLoop, dif_neg hpos, List.drop_of_length_le (Nat.le_of_not_lt hpos)]
      exact ⟨.nil, nofun⟩

end

/-- Pieces that are valid may be cut like that. -/
theorem allowed_of_valid {maxBytes : Nat} : ∀ {pieces : List Bytes},
    (∀ piece ∈ pieces, Valid piece ∧ piece.length ≤ maxBytes) →
      Cutting.Allowed StartsCodePoint maxBytes pieces ∧ Valid pieces.flatten
  | [], _ => ⟨trivial, Utf8.valid_nil⟩
  | piece :: pieces, h => by
      obtain ⟨⟨hvalid, hlen⟩, hpieces⟩ := List.forall_mem_cons.mp h
      obtain ⟨hallowed, hrest⟩ := allowed_of_valid hpieces
      exact ⟨⟨hlen, startsCodePoint_of_valid hrest, hallowed⟩, hvalid.append hrest⟩

/-- **Splitting loses nothing, and on valid text it is safe and takes the fewest pieces.** -/
theorem splitUtf8ByByteLimit_optimal (text : Bytes) {maxBytes : Nat} (h : 1 ≤ maxBytes) :
    ∃ pieces, splitUtf8ByByteLimit text maxBytes = some pieces ∧
      (∀ piece ∈ pieces, piece ≠ []) ∧ pieces.flatten = text ∧
      (Valid text → 4 ≤ maxBytes →
        (∀ piece ∈ pieces, Valid piece ∧ piece.length ≤ maxBytes) ∧
        ∀ others : List Bytes, (∀ piece ∈ others, Valid piece ∧ piece.length ≤ maxBytes) →
          others.flatten = text → pieces.length ≤ others.length) := by
  refine ⟨splitLoop text maxBytes 0, if_neg (by omega), splitLoop_nonempty text maxBytes 0, ?_, ?_⟩
  · rw [splitLoop_flatten, List.drop_zero]
  · intro hvalid hmax
    obtain ⟨hgreedy, hall⟩ := @splitLoop_greedy text maxBytes 0 hmax hvalid
    refine ⟨hall, fun others hothers hflatten => ?_⟩
    exact hgreedy.length_le (allowed_of_valid hothers).1 hflatten

/-- Two three-byte code points and a limit with room for one. -/
theorem splitUtf8ByByteLimit_two :
    ∃ pieces, splitUtf8ByByteLimit [0xE4, 0xB8, 0xAD, 0xE6, 0x96, 0x87] 4 = some pieces ∧
      (∀ piece ∈ pieces, Valid piece ∧ piece.length ≤ 4) ∧ pieces.length ≤ 2 := by
  have hvalid : Valid [0xE4, 0xB8, 0xAD, 0xE6, 0x96, 0x87] := ⟨['中', '文'], by decide⟩
  obtain ⟨pieces, hsplit, -, -, hoptimal⟩ :=
    splitUtf8ByByteLimit_optimal [0xE4, 0xB8, 0xAD, 0xE6, 0x96, 0x87] (show 1 ≤ 4 by decide)
  obtain ⟨hall, hfewest⟩ := hoptimal hvalid (by decide)
  refine ⟨pieces, hsplit, hall, hfewest [[0xE4, 0xB8, 0xAD], [0xE6, 0x96, 0x87]] ?_ rfl⟩
  rw [List.forall_mem_cons, List.forall_mem_singleton]
  exact ⟨⟨⟨['中'], by decide⟩, by decide⟩, ⟨['文'], by decide⟩, by decide⟩

end EdgeTts
