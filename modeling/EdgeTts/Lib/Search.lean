import Mathlib.Data.List.Infix
import Mathlib.Data.List.Basic

/-!
# Searching a list for a separator

String libraries locate a separator by position (`find`, `rfind`) and cut with
`substr`.  On lists the same search is best said as a decomposition:
`splitFirst sep l` is what stands before and after the first occurrence of
`sep`.  That an occurrence is the first one is a property of what stands before
it alone (`Fresh`), whatever follows, so a text written piece by piece is cut
back into its pieces (`splitFirst_append`, `splitOn_flatMap`).
-/
namespace Search

variable {α : Type}

/-! ## A class of characters up to the first other one -/

section
variable {p : α → Bool} {a : List α} {c : α}

theorem takeWhile_append_stop (ha : ∀ x ∈ a, p x = true) (hc : p c = false) (b : List α) :
    (a ++ c :: b).takeWhile p = a := by
  rw [List.takeWhile_append_of_pos ha, List.takeWhile_cons_of_neg (by simp [hc]), List.append_nil]

theorem dropWhile_append_stop (ha : ∀ x ∈ a, p x = true) (hc : p c = false) (b : List α) :
    (a ++ c :: b).dropWhile p = c :: b := by
  rw [List.dropWhile_append_of_pos ha, List.dropWhile_cons_of_neg (by simp [hc])]

end

/-! ## Separators -/

/-- No occurrence of `sep` starts inside `a` when `a` is followed by `r`. -/
def NoStart (sep : List α) : List α → List α → Prop
  | [], _ => True
  | x :: a, r => ¬ sep <+: x :: (a ++ r) ∧ NoStart sep a r

/-- `sep` right after `a` is its first occurrence. -/
def Fresh (sep a : List α) : Prop := NoStart sep a sep

@[simp] theorem noStart_nil (sep r : List α) : NoStart sep [] r := trivial

@[simp] theorem fresh_nil (sep : List α) : Fresh sep [] := trivial

theorem noStart_append {sep r : List α} : ∀ {a c : List α},
    NoStart sep (a ++ c) r ↔ NoStart sep a (c ++ r) ∧ NoStart sep c r
  | [], c => by simp
  | x :: a, c => by
      rw [List.cons_append, NoStart, NoStart, noStart_append, List.append_assoc, and_assoc]

theorem NoStart.longer {sep sep' r : List α} (hs : sep <+: sep') : ∀ {a : List α},
    NoStart sep a r → NoStart sep' a r
  | [], _ => trivial
  | _ :: _, h => ⟨fun hp => h.1 (hs.trans hp), NoStart.longer hs h.2⟩

/-- A text in which no separator starts does not hold one. -/
theorem NoStart.not_infix {sep r : List α} (hs : sep ≠ []) : ∀ {a : List α},
    NoStart sep a r → ¬ sep <:+: a
  | [], _, hi => hs (List.infix_nil.mp hi)
  | _ :: _, h, hi => by
      rcases List.infix_cons_iff.mp hi with hp | hi
      · exact h.1 (hp.trans (List.prefix_append _ r))
      · exact NoStart.not_infix hs h.2 hi

/-- A text without the separator's first element holds no start of it. -/
theorem noStart_of_not_mem {s : α} {sep r : List α} : ∀ {a : List α}, s ∉ a →
    NoStart (s :: sep) a r
  | [], _ => trivial
  | x :: a, h => by
      refine ⟨fun hp => h ?_, noStart_of_not_mem fun ha => h (List.mem_cons_of_mem x ha)⟩
      rw [(List.cons_prefix_cons.mp hp).1]
      exact List.mem_cons_self

/-- A two-element separator that starts in a text not holding it starts at the
text's last element. -/
theorem pair_prefix_append {s t x : α} {a r : List α} (hp : [s, t] <+: x :: (a ++ r))
    (hn : ¬ [s, t] <:+: x :: a) : a = [] ∧ x = s ∧ [t] <+: r := by
  obtain ⟨hx, hp⟩ := List.cons_prefix_cons.mp hp
  cases a with
  | nil => exact ⟨rfl, hx.symm, hp⟩
  | cons y a =>
      obtain ⟨hy, -⟩ := List.cons_prefix_cons.mp hp
      exact absurd (List.IsPrefix.isInfix ⟨a, by rw [hx, hy]; rfl⟩) hn

/-- A text that does not hold `[s, t]`, followed by something that does not start
with `t`, holds no start of `[s, t]`. -/
theorem noStart_pair {s t : α} {r : List α} (hr : ¬ [t] <+: r) : ∀ {a : List α},
    ¬ [s, t] <:+: a → NoStart [s, t] a r
  | [], _ => trivial
  | x :: a, h =>
      ⟨fun hp => hr (pair_prefix_append hp h).2.2,
        noStart_pair hr fun ha => h (ha.trans (List.suffix_cons x a).isInfix)⟩

theorem fresh_of_not_mem {s : α} {sep a : List α} (h : s ∉ a) : Fresh (s :: sep) a :=
  noStart_of_not_mem h

/-- A single element is found where it stands first. -/
theorem fresh_singleton_iff {s : α} {a : List α} : Fresh [s] a ↔ s ∉ a := by
  refine ⟨fun h hs => ?_, fresh_of_not_mem⟩
  exact NoStart.not_infix (List.cons_ne_nil s []) h ((List.singleton_infix_iff s a).mpr hs)

/-- A separator whose first element does not come again in it cannot overlap itself: it is
fresh after any text that does not hold it. -/
theorem fresh_of_not_infix {s : α} {sep : List α} (hs : s ∉ sep) : ∀ {a : List α},
    ¬ s :: sep <:+: a → Fresh (s :: sep) a
  | [], _ => trivial
  | x :: a, h => by
      refine ⟨fun hp => ?_,
        fresh_of_not_infix hs fun ha => h (ha.trans (List.suffix_cons x a).isInfix)⟩
      obtain ⟨rfl, htail⟩ := List.cons_prefix_cons.mp hp
      rcases Nat.lt_or_ge a.length sep.length with hlen | hlen
      · -- the occurrence would reach the first element of the separator after `a`
        have ha : a ++ [s] <+: sep :=
          List.prefix_of_prefix_length_le ⟨sep, by simp⟩ htail (by simpa)
        exact hs (ha.subset (by simp))
      · have ha : sep <+: a := List.prefix_of_prefix_length_le htail (List.prefix_append a _) hlen
        exact h (List.cons_prefix_cons.mpr ⟨rfl, ha⟩).isInfix

theorem fresh_pair {s t : α} (hst : s ≠ t) {a : List α} (h : ¬ [s, t] <:+: a) :
    Fresh [s, t] a :=
  fresh_of_not_infix (by simpa using hst) h

/-- A two-element separator does not arise around an element that is neither of its two. -/
theorem not_pair_infix_append {s t x : α} {b : List α} (hs : x ≠ s) (ht : x ≠ t)
    (hb : ¬ [s, t] <:+: b) : ∀ {a : List α}, ¬ [s, t] <:+: a → ¬ [s, t] <:+: a ++ x :: b
  | [], _ => by
      intro hi
      rcases List.infix_cons_iff.mp hi with hp | hi
      · exact hs (List.cons_prefix_cons.mp hp).1.symm
      · exact hb hi
  | y :: a, ha => by
      intro hi
      rcases List.infix_cons_iff.mp hi with hp | hi
      · obtain ⟨-, -, hp⟩ := pair_prefix_append hp ha
        exact ht (List.cons_prefix_cons.mp hp).1.symm
      · exact not_pair_infix_append hs ht hb
          (fun h => ha (h.trans (List.suffix_cons y a).isInfix)) hi

/-- A doubled element is fresh after any text that does not hold it and does not
end in that element. -/
theorem fresh_twice {s : α} : ∀ {a : List α}, ¬ [s, s] <:+: a → a.getLast? ≠ some s →
    Fresh [s, s] a
  | [], _, _ => trivial
  | x :: a, h, hl => by
      refine ⟨fun hp => ?_, fresh_twice (fun ha => h (ha.trans (List.suffix_cons x a).isInfix)) ?_⟩
      · obtain ⟨rfl, rfl, -⟩ := pair_prefix_append hp h
        exact hl rfl
      · intro ha
        cases a with
        | nil => cases ha
        | cons y a => exact hl (by rw [List.getLast?_cons_cons]; exact ha)

/-- **A blank line ends a block of lines.**  Lines that are not empty and do not
hold the line end `[s, t]`, joined by it, hold no doubled line end. -/
theorem fresh_lines {s t : α} (hst : s ≠ t) : ∀ {l : List α} {lines : List (List α)},
    (∀ x ∈ l :: lines, x ≠ [] ∧ ¬ [s, t] <:+: x) →
    Fresh [s, t, s, t] (l ++ lines.flatMap ([s, t] ++ ·))
  | l, [], h => by
      rw [List.flatMap_nil, List.append_nil]
      exact (noStart_pair (fun hp => hst (List.cons_prefix_cons.mp hp).1.symm)
        (h l (by simp)).2).longer ⟨[s, t], rfl⟩
  | l, l' :: lines, h => by
      have ih : Fresh [s, t, s, t] (l' ++ lines.flatMap ([s, t] ++ ·)) :=
        fresh_lines hst fun x hx => h x (List.mem_cons_of_mem l hx)
      rw [List.flatMap_cons, List.append_assoc]
      -- a start in the line, at its line end, or at the second element of the line end
      refine noStart_append.mpr ⟨?_, noStart_append.mpr ⟨⟨fun hp => ?_, fun hp => ?_, trivial⟩, ih⟩⟩
      · exact (noStart_pair (fun hp => hst (List.cons_prefix_cons.mp hp).1.symm)
          (h l (by simp)).2).longer ⟨[s, t], rfl⟩
      · obtain ⟨hne, hfree⟩ := h l' (by simp)
        cases l' with
        | nil => exact hne rfl
        | cons x l' =>
            have hp' : [s, t] <+: x :: (l' ++ (lines.flatMap ([s, t] ++ ·) ++ [s, t, s, t])) := by
              simpa using hp
            obtain ⟨-, -, ht⟩ := pair_prefix_append hp' hfree
            cases lines <;> exact hst (List.cons_prefix_cons.mp ht).1.symm
      · exact hst (List.cons_prefix_cons.mp hp).1

variable [DecidableEq α]

/-- What stands before and after the first occurrence of `sep`. -/
def splitFirst (sep : List α) : List α → Option (List α × List α)
  | [] => if sep = [] then some ([], []) else none
  | x :: xs =>
      if sep <+: x :: xs then some ([], (x :: xs).drop sep.length)
      else (splitFirst sep xs).map fun p => (x :: p.1, p.2)

/-- The position of the first occurrence of `sep`. -/
def find (sep l : List α) : Option Nat := (splitFirst sep l).map fun p => p.1.length

omit [DecidableEq α] in
/-- Whether `sep` starts a list at least as long as it does not depend on what
follows the list. -/
theorem prefix_append_iff {sep l : List α} (h : sep.length ≤ l.length) (b : List α) :
    sep <+: l ++ b ↔ sep <+: l :=
  ⟨fun hp => List.prefix_of_prefix_length_le hp (List.prefix_append l b) h,
    fun hp => hp.trans (List.prefix_append l b)⟩

theorem splitFirst_sound {sep : List α} : ∀ {l a b : List α},
    splitFirst sep l = some (a, b) → l = a ++ sep ++ b ∧ Fresh sep a
  | [], a, b, h => by
      simp only [splitFirst] at h
      split at h
      · rename_i hs
        simp only [Option.some.injEq, Prod.mk.injEq] at h
        obtain ⟨rfl, rfl⟩ := h
        simp [hs]
      · cases h
  | x :: xs, a, b, h => by
      rw [splitFirst] at h
      split at h
      · rename_i hp
        simp only [Option.some.injEq, Prod.mk.injEq] at h
        obtain ⟨rfl, rfl⟩ := h
        exact ⟨List.prefix_iff_eq_append.mp hp |>.symm, trivial⟩
      · rename_i hp
        obtain ⟨⟨a', b'⟩, hs, he⟩ := Option.map_eq_some_iff.mp h
        simp only [Prod.mk.injEq] at he
        obtain ⟨rfl, rfl⟩ := he
        obtain ⟨rfl, hf⟩ := splitFirst_sound hs
        refine ⟨rfl, fun hn => hp ?_, hf⟩
        exact hn.trans ⟨b', by simp⟩

/-- **The first occurrence is found**: what stands before it decides, whatever
follows. -/
theorem splitFirst_append {sep : List α} : ∀ {a : List α} (b : List α), Fresh sep a →
    splitFirst sep (a ++ sep ++ b) = some (a, b)
  | [], b, _ => by
      cases sep with
      | nil => cases b <;> simp [splitFirst]
      | cons s sep => simp [splitFirst]
  | x :: a, b, h => by
      obtain ⟨hx, ha⟩ := h
      -- what follows `sep` is too late to complete an earlier occurrence
      have hn : ¬ sep <+: x :: (a ++ sep ++ b) := by
        intro hp
        have hp' : sep <+: (x :: (a ++ sep)) ++ b := by simpa using hp
        exact hx ((prefix_append_iff (by simp; omega) b).mp hp')
      show splitFirst sep (x :: (a ++ sep ++ b)) = _
      rw [splitFirst, if_neg hn, splitFirst_append b ha]
      rfl

theorem splitFirst_eq_none_iff {sep : List α} : ∀ {l : List α},
    splitFirst sep l = none ↔ ¬ sep <:+: l
  | [] => by
      simp only [splitFirst, List.infix_nil]
      split <;> simp_all
  | x :: xs => by
      rw [splitFirst, List.infix_cons_iff]
      split
      · simp_all
      · rw [Option.map_eq_none_iff, splitFirst_eq_none_iff]
        simp_all

theorem find_eq_some {sep l : List α} {i : Nat} (h : find sep l = some i) :
    splitFirst sep l = some (l.take i, l.drop (i + sep.length)) := by
  obtain ⟨⟨a, b⟩, hs, rfl⟩ := Option.map_eq_some_iff.mp h
  obtain ⟨rfl, -⟩ := splitFirst_sound hs
  rw [hs]
  simp [List.append_assoc]

theorem find_eq_none {sep l : List α} (h : find sep l = none) : splitFirst sep l = none :=
  Option.map_eq_none_iff.mp h

/-- A found separator lies inside the list. -/
theorem find_le {sep l : List α} {i : Nat} (h : find sep l = some i) :
    i + sep.length ≤ l.length := by
  obtain ⟨⟨a, b⟩, hs, rfl⟩ := Option.map_eq_some_iff.mp h
  obtain ⟨rfl, -⟩ := splitFirst_sound hs
  simp

/-! ## Cutting at every occurrence -/

/-- The pieces of a list between the occurrences of `sep`, cut from left to
right. -/
def splitOn (sep l : List α) : List (List α) :=
  if h : sep = [] then [l]
  else
    match hs : splitFirst sep l with
    | none => [l]
    | some (a, b) =>
        have : b.length < l.length := by
          obtain ⟨rfl, -⟩ := splitFirst_sound hs
          have := List.length_pos_of_ne_nil h
          simp
          omega
        a :: splitOn sep b
  termination_by l.length

theorem splitOn_append {sep a : List α} (hs : sep ≠ []) (b : List α) (ha : Fresh sep a) :
    splitOn sep (a ++ sep ++ b) = a :: splitOn sep b := by
  rw [splitOn, dif_neg hs]
  split
  · rename_i h
    rw [splitFirst_append b ha] at h
    cases h
  · rename_i h
    rw [splitFirst_append b ha] at h
    cases h
    rfl

theorem splitOn_of_splitFirst {sep l a b : List α} (hs : sep ≠ [])
    (h : splitFirst sep l = some (a, b)) : splitOn sep l = a :: splitOn sep b := by
  obtain ⟨rfl, ha⟩ := splitFirst_sound h
  exact splitOn_append hs b ha

theorem splitOn_eq_singleton {sep l : List α} (h : ¬ sep <:+: l) : splitOn sep l = [l] := by
  rw [splitOn]
  split
  · rfl
  · split
    · rfl
    · rename_i hs
      rw [splitFirst_eq_none_iff.mpr h] at hs
      cases hs

/-- The pieces on both sides of an occurrence of a separator that cannot overlap itself. -/
theorem splitOn_append_append {s t : α} (hst : s ≠ t) (a b : List α) :
    splitOn [s, t] (a ++ [s, t] ++ b) = splitOn [s, t] a ++ splitOn [s, t] b := by
  induction hn : a.length using Nat.strongRecOn generalizing a with
  | ind n ih =>
      cases hf : splitFirst [s, t] a with
      | none =>
          have hfree := splitFirst_eq_none_iff.mp hf
          rw [splitOn_append (by simp) b (fresh_pair hst hfree), splitOn_eq_singleton hfree]
          rfl
      | some p =>
          obtain ⟨x, y⟩ := p
          obtain ⟨rfl, hx⟩ := splitFirst_sound hf
          have hy := ih y.length (by rw [← hn]; simp; omega) y rfl
          rw [splitOn_of_splitFirst (by simp) hf, List.cons_append, ← hy,
            ← splitOn_append (by simp) _ hx]
          simp

/-- The pieces on both sides of an occurrence of a single separator. -/
theorem splitOn_singleton_append (s : α) (a b : List α) :
    splitOn [s] (a ++ [s] ++ b) = splitOn [s] a ++ splitOn [s] b := by
  induction hn : a.length using Nat.strongRecOn generalizing a with
  | ind n ih =>
      by_cases hs : s ∈ a
      · obtain ⟨x, y, rfl, hx⟩ := List.eq_append_cons_of_mem hs
        have hy := ih y.length (by rw [← hn]; simp; omega) y rfl
        have hsplit : ∀ r : List α, splitOn [s] (x ++ [s] ++ r) = x :: splitOn [s] r :=
          fun r => splitOn_append (by simp) r (fresh_of_not_mem hx)
        have hleft : x ++ s :: y = x ++ [s] ++ y := by simp
        have hwhole : x ++ [s] ++ y ++ [s] ++ b = x ++ [s] ++ (y ++ [s] ++ b) := by
          simp only [List.append_assoc]
        rw [hleft, hwhole, hsplit, hsplit, hy, List.cons_append]
      · have hfree : ¬ [s] <:+: a := fun hi => hs (hi.subset (List.mem_singleton_self s))
        rw [splitOn_append (by simp) b (fresh_of_not_mem hs), splitOn_eq_singleton hfree]
        rfl

/-- No piece holds the separator. -/
theorem not_infix_of_mem_splitOn {sep l piece : List α} (hs : sep ≠ [])
    (h : piece ∈ splitOn sep l) : ¬ sep <:+: piece := by
  induction hn : l.length using Nat.strongRecOn generalizing l with
  | ind n ih =>
      cases hf : splitFirst sep l with
      | none =>
          rw [splitOn_eq_singleton (splitFirst_eq_none_iff.mp hf), List.mem_singleton] at h
          rw [h]
          exact splitFirst_eq_none_iff.mp hf
      | some p =>
          obtain ⟨a, b⟩ := p
          obtain ⟨rfl, ha⟩ := splitFirst_sound hf
          rw [splitOn_of_splitFirst hs hf] at h
          rcases List.mem_cons.mp h with rfl | h
          · exact ha.not_infix hs
          · have := List.length_pos_of_ne_nil hs
            exact ih b.length (by rw [← hn]; simp; omega) h rfl

/-- **Pieces written with their separator are cut back apart.** -/
theorem splitOn_flatMap {sep : List α} (hs : sep ≠ []) (r : List α) :
    ∀ {pieces : List (List α)}, (∀ a ∈ pieces, Fresh sep a) →
      splitOn sep (pieces.flatMap (· ++ sep) ++ r) = pieces ++ splitOn sep r
  | [], _ => rfl
  | a :: pieces, h => by
      rw [List.flatMap_cons, List.append_assoc, splitOn_append hs _ (h a (by simp)),
        splitOn_flatMap hs r fun x hx => h x (List.mem_cons_of_mem a hx), List.cons_append]

/-- `pieces` are what stands between the separators of `l`. -/
structure Pieces (sep l : List α) (pieces : List (List α)) : Prop where
  ne_nil : pieces ≠ []
  joined : sep.intercalate pieces = l
  free : ∀ piece ∈ pieces, ¬ sep <:+: piece

theorem splitOn_ne_nil (sep l : List α) : splitOn sep l ≠ [] := by
  rw [splitOn]
  split
  · simp
  · split <;> simp

/-- The pieces, joined by the separator, give the text back. -/
theorem intercalate_splitOn {sep : List α} (hs : sep ≠ []) (l : List α) :
    sep.intercalate (splitOn sep l) = l := by
  induction hn : l.length using Nat.strongRecOn generalizing l with
  | ind n ih =>
      cases hf : splitFirst sep l with
      | none =>
          rw [splitOn_eq_singleton (splitFirst_eq_none_iff.mp hf), List.intercalate_singleton]
      | some p =>
          obtain ⟨a, b⟩ := p
          have hrest := List.length_pos_of_ne_nil hs
          rw [splitOn_of_splitFirst hs hf,
            List.intercalate_cons_of_ne_nil (splitOn_ne_nil sep b)]
          obtain ⟨rfl, -⟩ := splitFirst_sound hf
          rw [ih b.length (by rw [← hn]; simp; omega) b rfl]

theorem splitOn_intercalate {s t : α} (hst : s ≠ t) : ∀ {pieces : List (List α)},
    pieces ≠ [] → (∀ piece ∈ pieces, ¬ [s, t] <:+: piece) →
      splitOn [s, t] (List.intercalate [s, t] pieces) = pieces
  | [], hne, _ => absurd rfl hne
  | [a], _, hfree => by
      rw [List.intercalate_singleton, splitOn_eq_singleton (hfree a List.mem_cons_self)]
  | a :: a' :: pieces, _, hfree => by
      have ih := splitOn_intercalate hst (List.cons_ne_nil a' pieces) fun x hx =>
        hfree x (List.mem_cons_of_mem a hx)
      rw [List.intercalate_cons_cons, splitOn_append (by simp) _
        (fresh_pair hst (hfree a List.mem_cons_self)), ih]

/-- **Cutting is the only way to read a text as pieces**, when the separator cannot overlap
itself. -/
theorem pieces_iff {s t : α} (hst : s ≠ t) {l : List α} {pieces : List (List α)} :
    Pieces [s, t] l pieces ↔ splitOn [s, t] l = pieces := by
  constructor
  · rintro ⟨hne, rfl, hfree⟩
    exact splitOn_intercalate hst hne hfree
  · rintro rfl
    refine ⟨splitOn_ne_nil _ l, intercalate_splitOn (by simp) l, ?_⟩
    intro piece hpiece
    exact not_infix_of_mem_splitOn (by simp) hpiece

omit [DecidableEq α] in
/-- A piece after the first one has a separator before it. -/
theorem exists_intercalate_eq (sep : List α) {rest : List (List α)} (hrest : rest ≠ []) :
    ∀ {pieces : List (List α)}, pieces ≠ [] →
      ∃ x, sep.intercalate (pieces ++ rest) = x ++ sep ++ sep.intercalate rest
  | [], hne => absurd rfl hne
  | [a], _ => ⟨a, by rw [List.singleton_append, List.intercalate_cons_of_ne_nil hrest]⟩
  | a :: a' :: pieces, _ => by
      obtain ⟨x, hx⟩ := exists_intercalate_eq sep hrest (List.cons_ne_nil a' pieces)
      refine ⟨a ++ sep ++ x, ?_⟩
      rw [List.cons_append, List.intercalate_cons_of_ne_nil (by simp), hx]
      simp only [List.append_assoc]

/-! ## Searching for one element -/

/-- The position of the last `c` in a list. -/
def lastIndex (c : α) : List α → Option Nat
  | [] => none
  | x :: xs =>
      match lastIndex c xs with
      | some i => some (i + 1)
      | none => if x = c then some 0 else none

/-- The position of the last `c` at or before `pos`. -/
def rfind (c : α) (l : List α) (pos : Nat) : Option Nat := lastIndex c (l.take (pos + 1))

/-- The position of the first `c` at or after `pos`. -/
def findFrom (c : α) (l : List α) (pos : Nat) : Option Nat :=
  ((l.drop pos).idxOf? c).map (· + pos)

theorem lastIndex_eq_none_iff {c : α} : ∀ {l : List α}, lastIndex c l = none ↔ c ∉ l
  | [] => by simp [lastIndex]
  | x :: xs => by
      have ih := lastIndex_eq_none_iff (c := c) (l := xs)
      rw [lastIndex]
      cases h : lastIndex c xs with
      | some i =>
          have : c ∈ xs := by
            by_contra hn
            rw [ih.mpr hn] at h
            cases h
          simp [this]
      | none => simp [ih.mp h, eq_comm]

theorem lastIndex_append {c : α} {b : List α} (hb : c ∉ b) : ∀ (a : List α),
    lastIndex c (a ++ c :: b) = some a.length
  | [] => by simp [lastIndex, lastIndex_eq_none_iff.mpr hb]
  | x :: a => by simp [lastIndex, lastIndex_append hb a]

theorem lastIndex_eq_some {c : α} : ∀ {l : List α} {i : Nat}, lastIndex c l = some i →
    ∃ a b, l = a ++ c :: b ∧ a.length = i ∧ c ∉ b
  | x :: xs, i, h => by
      rw [lastIndex] at h
      split at h
      · rename_i j hj
        obtain ⟨a, b, rfl, rfl, hb⟩ := lastIndex_eq_some hj
        cases h
        exact ⟨x :: a, b, rfl, rfl, hb⟩
      · rename_i hn
        split at h
        · rename_i hx
          cases h
          exact ⟨[], xs, by rw [hx]; rfl, rfl, lastIndex_eq_none_iff.mp hn⟩
        · cases h

/-- What `rfind` has found: an occurrence at or before `pos`, with none between. -/
theorem rfind_eq_some {c : α} {l : List α} {pos i : Nat} (h : rfind c l pos = some i) :
    i ≤ pos ∧ ∃ a b r, l = a ++ c :: (b ++ r) ∧ l.take (pos + 1) = a ++ c :: b ∧
      a.length = i ∧ c ∉ b := by
  obtain ⟨a, b, hl, rfl, hb⟩ := lastIndex_eq_some h
  refine ⟨?_, a, b, l.drop (pos + 1), ?_, hl, rfl, hb⟩
  · have := congrArg List.length hl
    simp only [List.length_take, List.length_append, List.length_cons] at this
    omega
  · conv => lhs; rw [← List.take_append_drop (pos + 1) l, hl]
    simp

theorem idxOf?_append_cons {c : α} : ∀ {a : List α} (b : List α), c ∉ a →
    (a ++ c :: b).idxOf? c = some a.length
  | [], b, _ => by simp [List.idxOf?_cons]
  | x :: a, b, h => by
      rw [List.mem_cons, not_or] at h
      rw [List.cons_append, List.idxOf?_cons, if_neg (by simpa using Ne.symm h.1),
        idxOf?_append_cons b h.2]
      rfl

omit [DecidableEq α] in
theorem mem_take_append_cons {x : α} {a : List α} (b : List α) {n : Nat} (h : a.length < n) :
    x ∈ (a ++ x :: b).take n := by
  obtain ⟨k, hk⟩ : ∃ k, n - a.length = k + 1 := ⟨n - a.length - 1, by omega⟩
  rw [List.take_append, List.mem_append, hk, List.take_succ_cons]
  exact Or.inr List.mem_cons_self

/-- What `idxOf?` has found: the first occurrence. -/
theorem idxOf?_eq_some {c : α} : ∀ {l : List α} {n : Nat}, l.idxOf? c = some n →
    ∃ a b, l = a ++ c :: b ∧ a.length = n ∧ c ∉ a
  | x :: l, n, h => by
      rw [List.idxOf?_cons] at h
      split at h
      · rename_i hx
        cases h
        exact ⟨[], l, by rw [beq_iff_eq.mp hx]; rfl, rfl, List.not_mem_nil⟩
      · rename_i hx
        obtain ⟨m, hm, rfl⟩ := Option.map_eq_some_iff.mp h
        obtain ⟨a, b, rfl, rfl, ha⟩ := idxOf?_eq_some hm
        refine ⟨x :: a, b, rfl, rfl, ?_⟩
        rw [List.mem_cons, not_or]
        exact ⟨fun hc => hx (by rw [hc]; exact beq_self_eq_true x), ha⟩

/-- The first occurrence splits a list in one way only. -/
theorem append_cons_inj {c : α} {a a' b b' : List α} (ha : c ∉ a) (ha' : c ∉ a')
    (h : a ++ c :: b = a' ++ c :: b') : a = a' ∧ b = b' := by
  have hlen : a.length = a'.length := by
    have hfirst := idxOf?_append_cons b ha
    rw [h, idxOf?_append_cons b' ha'] at hfirst
    exact (Option.some.inj hfirst).symm
  obtain ⟨rfl, htail⟩ := List.append_inj h hlen
  exact ⟨rfl, (List.cons.inj htail).2⟩

theorem idxOf?_any_lt {c : α} : ∀ {l : List α} {n : Nat},
    (l.idxOf? c).any (· < n) = true ↔ c ∈ l.take n
  | [], n => by simp
  | x :: l, 0 => by simp
  | x :: l, n + 1 => by
      rw [List.idxOf?_cons, List.take_succ_cons, List.mem_cons, ← idxOf?_any_lt]
      by_cases hx : x = c
      · simp [hx]
      · rw [if_neg (by simpa using hx)]
        cases l.idxOf? c <;> simp [Ne.symm hx]

/-- Whether the first `c` at or after `pos` stands before `e`. -/
theorem findFrom_any_lt {c : α} {l : List α} {pos e : Nat} :
    (findFrom c l pos).any (· < e) = true ↔ c ∈ (l.take e).drop pos := by
  rw [findFrom, List.drop_take, ← idxOf?_any_lt]
  cases (l.drop pos).idxOf? c with
  | none => simp
  | some i =>
      simp only [Option.map_some, Option.any_some, decide_eq_true_eq]
      omega

end Search
