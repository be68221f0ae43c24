import Mathlib.Data.List.Infix
import Mathlib.Data.List.Basic

/-!
# Regular expressions with captures

The fragment without alternatives: literals, classes, a class repeated at least
`n` times, sequences and capturing groups.  `Matches` is the meaning of an expression, the
words it matches with their captures.  `run` is a backtracking matcher that lists
its successes in order of preference, longest repetition first, and `fullMatch`
takes the first one that leaves nothing over, as `regex_match` does.
`mem_run_iff` connects the two.
-/
namespace Regex

variable {α : Type}

inductive Expr (α : Type) where
  | lit (w : List α)
  | one (p : α → Bool)
  /-- `p{n,}`, greedy. -/
  | atLeast (n : Nat) (p : α → Bool)
  | seq (a b : Expr α)
  | group (a : Expr α)

/-- `w` matches the expression with the captures `caps`, in the order in which
their groups open. -/
def Matches : Expr α → List α → List (List α) → Prop
  | .lit v, w, caps => w = v ∧ caps = []
  | .one p, w, caps => (∃ x, w = [x] ∧ p x = true) ∧ caps = []
  | .atLeast n p, w, caps => n ≤ w.length ∧ (∀ x ∈ w, p x = true) ∧ caps = []
  | .seq a b, w, caps => ∃ u v cs ds, w = u ++ v ∧ caps = cs ++ ds ∧
      Matches a u cs ∧ Matches b v ds
  | .group a, w, caps => ∃ cs, caps = w :: cs ∧ Matches a w cs

/-- The splits of a list after at least `n` elements of a class, longest first. -/
def repeats (p : α → Bool) : Nat → List α → List (List α × List α)
  | n, [] => if n = 0 then [([], [])] else []
  | n, x :: l =>
      (if p x then (repeats p (n - 1) l).map fun s => (x :: s.1, s.2) else []) ++
        (if n = 0 then [([], x :: l)] else [])

theorem nil_mem_repeats {p : α → Bool} {n : Nat} {l r : List α} :
    ([], r) ∈ repeats p n l ↔ n = 0 ∧ l = r := by
  cases l with
  | nil =>
      rw [repeats]
      by_cases hn : n = 0
      · simp [hn, eq_comm]
      · simp [hn]
  | cons x l =>
      have hlonger : ([], r) ∉
          (if p x then (repeats p (n - 1) l).map fun s => (x :: s.1, s.2) else []) := by
        split <;> simp
      rw [repeats, List.mem_append, or_iff_right hlonger]
      by_cases hn : n = 0
      · simp [hn, eq_comm]
      · simp [hn]

theorem cons_mem_repeats {p : α → Bool} {n : Nat} {x : α} {u l r : List α} :
    (x :: u, r) ∈ repeats p n l ↔
      ∃ l', l = x :: l' ∧ p x = true ∧ (u, r) ∈ repeats p (n - 1) l' := by
  cases l with
  | nil =>
      rw [repeats]
      by_cases hn : n = 0
      · simp [hn]
      · simp [hn]
  | cons y l =>
      have hshortest : (x :: u, r) ∉ (if n = 0 then [(([] : List α), y :: l)] else []) := by
        split <;> simp
      rw [repeats, List.mem_append, or_iff_left hshortest]
      by_cases hp : p y = true
      · rw [if_pos hp, List.mem_map]
        constructor
        · rintro ⟨s, hs, heq⟩
          cases heq
          exact ⟨l, rfl, hp, hs⟩
        · rintro ⟨l', heq, -, hs⟩
          cases heq
          exact ⟨(u, r), hs, rfl⟩
      · rw [if_neg hp]
        refine iff_of_false List.not_mem_nil ?_
        rintro ⟨l', heq, hp', -⟩
        cases heq
        exact hp hp'

theorem mem_repeats_iff {p : α → Bool} {n : Nat} {u l r : List α} :
    (u, r) ∈ repeats p n l ↔ l = u ++ r ∧ n ≤ u.length ∧ ∀ x ∈ u, p x = true := by
  induction u generalizing n l with
  | nil =>
      rw [nil_mem_repeats]
      simp [and_comm]
  | cons x u ih =>
      rw [cons_mem_repeats]
      constructor
      · rintro ⟨l', rfl, hp, hmem⟩
        obtain ⟨rfl, hlength, hall⟩ := ih.mp hmem
        refine ⟨rfl, ?_, List.forall_mem_cons.mpr ⟨hp, hall⟩⟩
        rw [List.length_cons]
        omega
      · rintro ⟨rfl, hlength, hall⟩
        obtain ⟨hp, hall⟩ := List.forall_mem_cons.mp hall
        rw [List.length_cons] at hlength
        exact ⟨u ++ r, rfl, hp, ih.mpr ⟨rfl, by omega, hall⟩⟩

variable [DecidableEq α]

/-- The successes of the matcher: captures, what was matched, and the rest. -/
def run : Expr α → List α → List (List (List α) × List α × List α)
  | .lit v, l => if v <+: l then [([], v, l.drop v.length)] else []
  | .one _, [] => []
  | .one p, x :: l => if p x then [([], [x], l)] else []
  | .atLeast n p, l => (repeats p n l).map fun s => ([], s.1, s.2)
  | .seq a b, l => (run a l).flatMap fun s =>
      (run b s.2.2).map fun t => (s.1 ++ t.1, s.2.1 ++ t.2.1, t.2.2)
  | .group a, l => (run a l).map fun s => (s.2.1 :: s.1, s.2)

/-- **The matcher finds exactly the matching prefixes.** -/
theorem mem_run_iff : ∀ {r : Expr α} {l w rest : List α} {caps : List (List α)},
    (caps, w, rest) ∈ run r l ↔ l = w ++ rest ∧ Matches r w caps
  | .lit v, l, w, rest, caps => by
      rw [run]
      split
      · rename_i hp
        obtain ⟨l, rfl⟩ := hp
        simp only [List.drop_left, List.mem_singleton, Prod.mk.injEq, Matches]
        constructor
        · rintro ⟨rfl, rfl, rfl⟩
          exact ⟨rfl, rfl, rfl⟩
        · rintro ⟨h, rfl, rfl⟩
          exact ⟨rfl, rfl, (List.append_cancel_left h).symm⟩
      · rename_i hp
        refine iff_of_false (by simp) ?_
        rintro ⟨rfl, rfl, -⟩
        exact hp (List.prefix_append w rest)
  | .one p, [], w, rest, caps => by
      refine iff_of_false (by simp [run]) ?_
      rintro ⟨h, ⟨x, rfl, -⟩, -⟩
      cases h
  | .one p, x :: l, w, rest, caps => by
      rw [run]
      split
      · rename_i hp
        simp only [List.mem_singleton, Prod.mk.injEq, Matches]
        constructor
        · rintro ⟨rfl, rfl, rfl⟩
          exact ⟨rfl, ⟨x, rfl, hp⟩, rfl⟩
        · rintro ⟨h, ⟨y, rfl, -⟩, rfl⟩
          cases h
          exact ⟨rfl, rfl, rfl⟩
      · rename_i hp
        refine iff_of_false (by simp) ?_
        rintro ⟨h, ⟨y, rfl, hy⟩, -⟩
        cases h
        exact hp hy
  | .atLeast n p, l, w, rest, caps => by
      rw [run, List.mem_map]
      constructor
      · rintro ⟨s, hs, he⟩
        simp only [Prod.mk.injEq] at he
        obtain ⟨rfl, rfl, rfl⟩ := he
        obtain ⟨hl, hlen, hall⟩ := mem_repeats_iff.mp hs
        exact ⟨hl, hlen, hall, rfl⟩
      · rintro ⟨hl, hlen, hall, rfl⟩
        exact ⟨(w, rest), mem_repeats_iff.mpr ⟨hl, hlen, hall⟩, rfl⟩
  | .seq a b, l, w, rest, caps => by
      rw [run, List.mem_flatMap]
      constructor
      -- what `a` leaves over is what `b` starts with
      · rintro ⟨⟨cs, u, mid⟩, ha, ht⟩
        obtain ⟨⟨ds, v, rest'⟩, hb, he⟩ := List.mem_map.mp ht
        simp only [Prod.mk.injEq] at he
        obtain ⟨rfl, rfl, rfl⟩ := he
        obtain ⟨rfl, hu⟩ := mem_run_iff.mp ha
        obtain ⟨rfl, hv⟩ := mem_run_iff.mp hb
        exact ⟨by simp, u, v, cs, ds, rfl, rfl, hu, hv⟩
      · rintro ⟨rfl, u, v, cs, ds, rfl, rfl, ha, hb⟩
        refine ⟨(cs, u, v ++ rest), mem_run_iff.mpr ⟨by simp, ha⟩, ?_⟩
        exact List.mem_map.mpr ⟨(ds, v, rest), mem_run_iff.mpr ⟨rfl, hb⟩, rfl⟩
  | .group a, l, w, rest, caps => by
      rw [run, List.mem_map]
      constructor
      · rintro ⟨⟨cs, u, rest'⟩, ha, he⟩
        simp only [Prod.mk.injEq] at he
        obtain ⟨rfl, rfl, rfl⟩ := he
        obtain ⟨rfl, hu⟩ := mem_run_iff.mp ha
        exact ⟨rfl, cs, rfl, hu⟩
      · rintro ⟨hl, cs, rfl, ha⟩
        exact ⟨(cs, w, rest), mem_run_iff.mpr ⟨hl, ha⟩, rfl⟩

/-- The captures of the preferred match of the whole list. -/
def fullMatch (r : Expr α) (l : List α) : Option (List (List α)) :=
  ((run r l).find? fun s => s.2.2.isEmpty).map (·.1)

theorem matches_of_fullMatch {r : Expr α} {l : List α} {caps : List (List α)}
    (h : fullMatch r l = some caps) : Matches r l caps := by
  obtain ⟨⟨cs, w, rest⟩, hf, rfl⟩ := Option.map_eq_some_iff.mp h
  have hrest : rest = [] := by simpa using List.find?_some hf
  obtain ⟨rfl, hm⟩ := mem_run_iff.mp (List.mem_of_find?_eq_some hf)
  rwa [hrest, List.append_nil]

/-- **`fullMatch` decides the language of the expression.** -/
theorem fullMatch_isSome_iff {r : Expr α} {l : List α} :
    (fullMatch r l).isSome = true ↔ ∃ caps, Matches r l caps := by
  constructor
  · intro h
    obtain ⟨caps, hc⟩ := Option.isSome_iff_exists.mp h
    exact ⟨caps, matches_of_fullMatch hc⟩
  · rintro ⟨caps, hm⟩
    have hmem : (caps, l, []) ∈ run r l := mem_run_iff.mpr ⟨(List.append_nil l).symm, hm⟩
    rw [fullMatch, Option.isSome_map, List.find?_isSome]
    exact ⟨_, hmem, rfl⟩

end Regex
