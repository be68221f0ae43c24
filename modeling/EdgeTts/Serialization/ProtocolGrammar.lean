import EdgeTts.Lib.Parts
import EdgeTts.Serialization.Protocol

/-!
# The grammar of protocol frames

What `ProtocolParser::parse` accepts, said without its searches: a frame is a header
section, the first separator and a body, and the header section is pieces joined by CRLF.
`Search.pieces_iff` makes the pieces unique, `cut_iff` the cut, so `parse_iff_grammar`
settles the result of the parser from the frame alone.
-/
namespace EdgeTts

open Search (splitFirst splitOn Pieces)

/-- The frame is cut at its first separator. -/
structure Cut (frame headerSection body : Bytes) : Prop where
  frame_eq : frame = headerSection ++ kSeparator ++ body
  first : ∀ a b, frame = a ++ kSeparator ++ b → headerSection.length ≤ a.length

theorem Cut.unique {frame headerSection headerSection' body body' : Bytes}
    (cut : Cut frame headerSection body) (cut' : Cut frame headerSection' body') :
    headerSection = headerSection' ∧ body = body' := by
  have hlen : headerSection.length = headerSection'.length :=
    Nat.le_antisymm (cut.first _ _ cut'.frame_eq) (cut'.first _ _ cut.frame_eq)
  have heq := cut.frame_eq.symm.trans cut'.frame_eq
  obtain ⟨hhead, hbody⟩ := List.append_inj heq (by simp [hlen])
  exact ⟨(List.append_inj hhead hlen).1, hbody⟩

theorem cut_of_splitFirst {frame headerSection body : Bytes}
    (hs : splitFirst kSeparator frame = some (headerSection, body)) :
    Cut frame headerSection body := by
  obtain ⟨hframe, fresh⟩ := Search.splitFirst_sound hs
  refine ⟨hframe, ?_⟩
  intro a b heq
  by_contra hlt
  -- an earlier separator would start inside the header section
  have ha : a <+: frame := ⟨kSeparator ++ b, by rw [heq, List.append_assoc]⟩
  have hhead : headerSection <+: frame :=
    ⟨kSeparator ++ body, by rw [hframe, List.append_assoc]⟩
  obtain ⟨c, rfl⟩ := List.prefix_of_prefix_length_le ha hhead (by omega)
  obtain ⟨-, hc⟩ := Search.noStart_append.mp fresh
  cases c with
  | nil => simp at hlt
  | cons x c =>
      refine hc.1 ?_
      have htail : x :: (c ++ kSeparator) ++ body = kSeparator ++ b := by
        have := hframe.symm.trans heq
        simpa using this
      exact (Search.prefix_append_iff (by simp; omega) body).mp ⟨b, htail.symm⟩

theorem cut_iff {frame headerSection body : Bytes} :
    Cut frame headerSection body ↔
      splitFirst kSeparator frame = some (headerSection, body) := by
  refine ⟨?_, cut_of_splitFirst⟩
  intro cut
  cases hs : splitFirst kSeparator frame with
  | none =>
      have hfree := Search.splitFirst_eq_none_iff.mp hs
      exact absurd ⟨headerSection, body, cut.frame_eq.symm⟩ hfree
  | some p =>
      obtain ⟨rfl, rfl⟩ := cut.unique (cut_of_splitFirst hs)
      rfl

/-- **Only the first piece of a header section can be empty**, since a later one would stand
between two CRLFs, before the separator. -/
theorem Cut.eq_zero_of_piece_eq_nil {frame headerSection body : Bytes} {pieces : List Bytes}
    (cut : Cut frame headerSection body) (joined : kCrlf.intercalate pieces = headerSection)
    {i : Nat} (hi : pieces[i]? = some []) : i = 0 := by
  by_contra hpos
  obtain ⟨hlt, hnil⟩ := List.getElem?_eq_some_iff.mp hi
  have hsplit := List.take_append_drop i pieces
  rw [List.drop_eq_getElem_cons hlt, hnil] at hsplit
  have hbefore : pieces.take i ≠ [] := by
    rw [Ne, List.take_eq_nil_iff]
    rintro (h | rfl)
    · exact hpos h
    · exact absurd hlt (Nat.not_lt_zero i)
  obtain ⟨x, hx⟩ := Search.exists_intercalate_eq kCrlf
    (List.cons_ne_nil [] (pieces.drop (i + 1))) hbefore
  rw [hsplit, joined] at hx
  -- the separator would come right after `x`
  have hearly : ∃ b, frame = x ++ kSeparator ++ b := by
    rw [cut.frame_eq, hx]
    by_cases hlast : pieces.drop (i + 1) = []
    · rw [hlast, List.intercalate_singleton]
      exact ⟨kCrlf ++ body, by simp [kSeparator, kCrlf]⟩
    · rw [List.intercalate_cons_of_ne_nil hlast]
      exact ⟨_, by simp only [kSeparator, kCrlf, List.append_assoc, List.cons_append,
        List.nil_append]; rfl⟩
  obtain ⟨b, hb⟩ := hearly
  have hle := cut.first x b hb
  have hlen := congrArg List.length hx
  rw [List.length_append, List.length_append] at hlen
  simp only [kCrlf, List.length_cons] at hlen
  omega

/-- A header section with an empty first piece is empty itself or starts with CRLF. -/
theorem crlf_prefix_of_head_eq_nil {headerSection : Bytes} {pieces : List Bytes}
    (joined : kCrlf.intercalate pieces = headerSection) (hhead : pieces[0]? = some [])
    (hne : headerSection ≠ []) : kCrlf <+: headerSection := by
  cases pieces with
  | nil => cases hhead
  | cons piece pieces =>
      obtain rfl : piece = [] := by simpa using hhead
      by_cases hpieces : pieces = []
      · subst hpieces
        exact absurd joined.symm hne
      · rw [List.intercalate_cons_of_ne_nil hpieces, List.nil_append] at joined
        exact ⟨_, joined⟩

namespace ProtocolParser

/-- The message of a frame, from its cut and its pieces. -/
theorem parse_eq_ok_iff_pieces {frame : Bytes} {message : ProtocolMessage} :
    parse frame = .ok message ↔ ∃ headerSection pieces, Cut frame headerSection message.body ∧
      Pieces kCrlf headerSection pieces ∧
      List.Forall₂ IsLineOf (pieces.filter fun piece => !piece.isEmpty) message.headers := by
  rw [parse_eq_ok_iff]
  constructor
  · rintro ⟨headerSection, hs, hh⟩
    exact ⟨headerSection, splitOn kCrlf headerSection, cut_of_splitFirst hs,
      (Search.pieces_iff (by decide)).mpr rfl, parseHeaders_eq_ok_iff.mp hh⟩
  · rintro ⟨headerSection, pieces, cut, hpieces, hall⟩
    obtain rfl := (Search.pieces_iff (by decide)).mp hpieces
    exact ⟨headerSection, cut_iff.mp cut, parseHeaders_eq_ok_iff.mpr hall⟩

/-- A line can be read as a header exactly when it has a colon. -/
theorem exists_isLineOf_iff {line : Bytes} : (∃ h, IsLineOf line h) ↔ kColon ∈ line := by
  constructor
  · rintro ⟨h, rfl, -⟩
    simp [headerLine]
  · intro hmem
    obtain ⟨name, value, rfl, hname⟩ := List.eq_append_cons_of_mem hmem
    exact ⟨(name, value), rfl, hname⟩

theorem exists_headers_iff {pieces : List Bytes} :
    (∃ headers, List.Forall₂ IsLineOf (pieces.filter fun piece => !piece.isEmpty) headers) ↔
      ∀ piece ∈ pieces, piece ≠ [] → kColon ∈ piece := by
  rw [Parts.exists_forall₂_iff]
  simp only [exists_isLineOf_iff]
  simp

/-- **The parser accepts exactly its grammar**: a frame with a separator, and a colon in
every piece of its header section that is not empty.  The message has a header for each of
these pieces and everything after the separator. -/
theorem parse_iff_grammar (frame : Bytes) :
    ((∃ message, parse frame = .ok message) ↔
      ∃ headerSection pieces body, Cut frame headerSection body ∧
        Pieces kCrlf headerSection pieces ∧ ∀ piece ∈ pieces, piece ≠ [] → kColon ∈ piece) ∧
    (∀ message, parse frame = .ok message ↔ ∃ headerSection pieces,
      Cut frame headerSection message.body ∧ Pieces kCrlf headerSection pieces ∧
        List.Forall₂ IsLineOf (pieces.filter fun piece => !piece.isEmpty) message.headers) ∧
    ∀ headerSection pieces body, Cut frame headerSection body →
      Pieces kCrlf headerSection pieces → ∀ i, pieces[i]? = some [] →
        i = 0 ∧ (headerSection ≠ [] → kCrlf <+: headerSection) := by
  refine ⟨?_, fun message => parse_eq_ok_iff_pieces, ?_⟩
  · constructor
    · rintro ⟨message, hparse⟩
      obtain ⟨headerSection, pieces, cut, hpieces, hlines⟩ := parse_eq_ok_iff_pieces.mp hparse
      exact ⟨headerSection, pieces, message.body, cut, hpieces,
        exists_headers_iff.mp ⟨message.headers, hlines⟩⟩
    · rintro ⟨headerSection, pieces, body, cut, hpieces, hcolon⟩
      obtain ⟨headers, hlines⟩ := exists_headers_iff.mpr hcolon
      exact ⟨⟨headers, body⟩,
        parse_eq_ok_iff_pieces.mpr ⟨headerSection, pieces, cut, hpieces, hlines⟩⟩
  · intro headerSection pieces body cut hpieces i hi
    obtain rfl := cut.eq_zero_of_piece_eq_nil hpieces.joined hi
    exact ⟨rfl, crlf_prefix_of_head_eq_nil hpieces.joined hi⟩

/-- A blank first line, a lone LF in a value and a separator in the body. -/
example : parse (lit "\r\nPath:a\nb:\r\n\r\nc\r\n\r\n") =
    .ok ⟨[(lit "Path", lit "a\nb:")], lit "c\r\n\r\n"⟩ := by
  decide +kernel

end ProtocolParser
end EdgeTts
