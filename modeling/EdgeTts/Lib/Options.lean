import EdgeTts.Lib.Search

/-!
# Command lines of options

A command line is a list of tokens.  Some tokens are flags; the others are options with a
value, long ones `--name=value` or `--name value` and short ones `-cvalue` or `-c value`,
where a value that is a token of its own does not look like an option.  A `Grammar` says
which names there are and what an option does to the state, and `scan` reads a command line
from left to right, up to the first error.

`scan_eq_ok_iff` says which command lines are accepted: the concatenations of the grammar's
items, whose effects are then done one after the other.  `scan_agree` compares two grammars
token by token.
-/
namespace Options

open Search (splitFirst)

variable {α ε κ σ : Type} [DecidableEq α]

/-- The names of a program's options, and what they do. -/
structure Grammar (α ε κ σ : Type) where
  dash : α
  equals : α
  /-- The effect of a token that is a flag. -/
  flag : List α → Option (σ → σ)
  /-- The option with a long name, dashes included. -/
  long : List α → Except ε κ
  /-- The option with a short name; its whole token is for the message. -/
  short : α → List α → Except ε κ
  /-- The effect of an option with its value. -/
  set : κ → List α → σ → Except ε σ
  /-- The error of an option without a value. -/
  missing : List α → ε
  /-- The error of a token that is no option. -/
  positional : List α → ε

/-- A token of at least two characters that starts with a dash. -/
def IsOption (dash : α) : List α → Prop
  | d :: _ :: _ => d = dash
  | _ => False

instance (dash : α) : DecidablePred (IsOption dash)
  | [] => inferInstanceAs (Decidable False)
  | [_] => inferInstanceAs (Decidable False)
  | d :: _ :: _ => inferInstanceAs (Decidable (d = dash))

/-- A token cut at its first equals sign. -/
def splitAtEquals (equals : α) (tok : List α) : List α × Option (List α) :=
  match splitFirst [equals] tok with
  | some (key, value) => (key, some value)
  | none => (tok, none)

/-- The value of an option: what is attached to it, or else the next token.  The flag says
whether the next token has been used. -/
def takeValue (dash : α) : Option (List α) → Option (List α) → Option (List α × Bool)
  | some value, _ => some (value, false)
  | none, some tok => if IsOption dash tok then none else some (tok, true)
  | none, none => none

/-- What a token, with the one that follows it, has been read as. -/
inductive Reading (α κ σ : Type) where
  | flag (set : σ → σ)
  | valued (option : κ) (value : List α) (usesNext : Bool)

namespace Grammar
variable (g : Grammar α ε κ σ)

/-- The value of an option called `name`, or the error that there is none. -/
def readValue (name : List α) (option : κ) (attached next : Option (List α)) :
    Except ε (Reading α κ σ) :=
  match takeValue g.dash attached next with
  | some (value, usesNext) => .ok (.valued option value usesNext)
  | none => .error (g.missing name)

/-- A token that is not a flag. -/
def readOption (tok : List α) (next : Option (List α)) : Except ε (Reading α κ σ) :=
  if tok.take 2 = [g.dash, g.dash] then
    let (key, attached) := splitAtEquals g.equals tok
    match g.long key with
    | .error e => .error e
    | .ok option => g.readValue key option attached next
  else
    match tok with
    | d :: c :: rest =>
        if d = g.dash then
          match g.short c tok with
          | .error e => .error e
          | .ok option =>
              g.readValue [d, c] option (if rest.isEmpty then none else some rest) next
        else .error (g.positional tok)
    | _ => .error (g.positional tok)

/-- One token, and the next one when it is needed. -/
def read (tok : List α) (next : Option (List α)) : Except ε (Reading α κ σ) :=
  match g.flag tok with
  | some set => .ok (.flag set)
  | none => g.readOption tok next

/-- The effect of what has been read. -/
def perform : Reading α κ σ → σ → Except ε σ
  | .flag set, st => .ok (set st)
  | .valued option value _, st => g.set option value st

/-- The tokens after a reading. -/
def after (rest : List (List α)) : Reading α κ σ → List (List α)
  | .valued _ _ true => rest.tail
  | _ => rest

omit [DecidableEq α] in
theorem length_after_le (rest : List (List α)) (reading : Reading α κ σ) :
    (after rest reading).length ≤ rest.length := by
  rw [after.eq_def]
  split
  · rw [List.length_tail]
    omega
  · exact le_refl _

/-- The loop over the tokens. -/
def scan (st : σ) : List (List α) → Except ε σ
  | [] => .ok st
  | tok :: rest =>
      match g.read tok rest.head? with
      | .error e => .error e
      | .ok reading =>
          match g.perform reading st with
          | .error e => .error e
          | .ok st => scan st (after rest reading)
  termination_by tokens => tokens.length
  decreasing_by exact Nat.lt_succ_of_le (length_after_le rest reading)

end Grammar

/-! ## The items of a command line -/

/-- A flag, or an option with its value, which is `attached` to the name or not. -/
inductive Item (α κ : Type) where
  | flag (tok : List α)
  | long (key : List α) (option : κ) (value : List α) (attached : Bool)
  | short (c : α) (option : κ) (value : List α) (attached : Bool)

namespace Grammar
variable (g : Grammar α ε κ σ)

/-- The first token of an item. -/
def head : Item α κ → List α
  | .flag tok => tok
  | .long key _ value true => key ++ g.equals :: value
  | .long key _ _ false => key
  | .short c _ value true => g.dash :: c :: value
  | .short c _ _ false => [g.dash, c]

/-- The second token of an item, if there is one. -/
def tail : Item α κ → List (List α)
  | .long _ _ value false => [value]
  | .short _ _ value false => [value]
  | _ => []

def tokens (item : Item α κ) : List (List α) := g.head item :: tail item

/-- The item is one of the grammar. -/
def Fits : Item α κ → Prop
  | .flag tok => (g.flag tok).isSome
  | .long key option value attached =>
      g.flag (g.head (.long key option value attached)) = none ∧
      key.take 2 = [g.dash, g.dash] ∧ g.equals ∉ key ∧ g.long key = .ok option ∧
      (attached = false → ¬ IsOption g.dash value)
  | .short c option value attached =>
      g.flag (g.head (.short c option value attached)) = none ∧
      c ≠ g.dash ∧ g.short c (g.head (.short c option value attached)) = .ok option ∧
      if attached then value ≠ [] else ¬ IsOption g.dash value

/-- What the item does. -/
def effect : Item α κ → σ → Except ε σ
  | .flag tok, st => .ok ((g.flag tok).getD id st)
  | .long _ option value _, st => g.set option value st
  | .short _ option value _, st => g.set option value st

omit [DecidableEq α] in
theorem take_two_append {key rest : List α} {d : α} (h : key.take 2 = [d, d]) :
    (key ++ rest).take 2 = [d, d] := by
  rw [List.take_append_of_le_length, h]
  have := congrArg List.length h
  simp at this
  omega

/-- **An item is read back**, whatever follows it. -/
theorem read_of_fits {item : Item α κ} (fits : g.Fits item) (rest : List (List α)) :
    ∃ reading, g.read (g.head item) (tail item ++ rest).head? = .ok reading ∧
      after (tail item ++ rest) reading = rest ∧ g.perform reading = g.effect item := by
  cases item with
  | flag tok =>
      obtain ⟨set, hset⟩ := Option.isSome_iff_exists.mp fits
      refine ⟨.flag set, ?_, rfl, ?_⟩
      · rw [read, head, hset]
      · funext st
        rw [perform, effect, hset]
        rfl
  | long key option value attached =>
      obtain ⟨notFlag, hdashes, hequals, hlong, hseparate⟩ := fits
      refine ⟨.valued option value (!attached), ?_, ?_, rfl⟩
      · rw [read, notFlag]
        cases attached with
        | true =>
            have hcut : splitAtEquals g.equals (key ++ g.equals :: value) = (key, some value) := by
              have h := Search.splitFirst_append value (Search.fresh_singleton_iff.mpr hequals)
              rw [List.append_assoc, List.singleton_append] at h
              rw [splitAtEquals, h]
            simp only [head, readOption, take_two_append hdashes, hcut, hlong, readValue, takeValue,
              if_pos, Bool.not_true]
        | false =>
            have hcut : splitAtEquals g.equals key = (key, none) := by
              have h : ¬ [g.equals] <:+: key := by rwa [List.singleton_infix_iff]
              rw [splitAtEquals, Search.splitFirst_eq_none_iff.mpr h]
            simp only [head, tail, readOption, hdashes, hcut, hlong, readValue, takeValue,
              if_neg (hseparate rfl), if_pos, List.singleton_append, List.head?_cons,
              Bool.not_false]
      · cases attached <;> rfl
  | short c option value attached =>
      obtain ⟨notFlag, hdash, hshort, hvalue⟩ := fits
      refine ⟨.valued option value (!attached), ?_, ?_, rfl⟩
      · rw [read, notFlag]
        have hnot : ∀ rest, ¬ (g.dash :: c :: rest).take 2 = [g.dash, g.dash] := by
          intro rest heq
          simp at heq
          exact hdash heq
        cases attached with
        | true =>
            have hne : value ≠ [] := hvalue
            simp only [head] at hshort ⊢
            simp only [readOption, if_neg (hnot value), if_pos, hshort, readValue, takeValue,
              List.isEmpty_iff, hne, Bool.not_true, if_false]
        | false =>
            have hsep : ¬ IsOption g.dash value := hvalue
            simp only [head] at hshort ⊢
            simp only [tail, readOption, if_neg (hnot []), if_pos, hshort, readValue, takeValue,
              List.isEmpty_nil, if_neg hsep, List.singleton_append, List.head?_cons, Bool.not_false]
      · cases attached <;> rfl

variable {g}

theorem takeValue_eq_some {attached : Option (List α)} {rest : List (List α)} {value : List α}
    {usesNext : Bool} (h : takeValue g.dash attached rest.head? = some (value, usesNext)) :
    attached = some value ∧ usesNext = false ∨
      attached = none ∧ usesNext = true ∧ ¬ IsOption g.dash value ∧ rest = value :: rest.tail := by
  cases attached with
  | some v =>
      simp only [takeValue, Option.some.injEq, Prod.mk.injEq] at h
      exact Or.inl ⟨by rw [h.1], h.2.symm⟩
  | none =>
      cases rest with
      | nil => cases h
      | cons tok rest =>
          by_cases hopt : IsOption g.dash tok
          · simp only [takeValue, List.head?_cons, if_pos hopt] at h
            cases h
          · simp only [takeValue, List.head?_cons, if_neg hopt, Option.some.injEq,
              Prod.mk.injEq] at h
            obtain ⟨rfl, rfl⟩ := h
            exact Or.inr ⟨rfl, rfl, hopt, rfl⟩

theorem readValue_eq_ok {name : List α} {option : κ} {attached : Option (List α)}
    {rest : List (List α)} {reading : Reading α κ σ}
    (h : g.readValue name option attached rest.head? = .ok reading) :
    ∃ value usesNext, reading = .valued option value usesNext ∧
      (attached = some value ∧ usesNext = false ∨ attached = none ∧ usesNext = true ∧
        ¬ IsOption g.dash value ∧ rest = value :: rest.tail) := by
  rw [readValue] at h
  split at h
  · rename_i value usesNext hvalue
    cases h
    exact ⟨value, usesNext, rfl, takeValue_eq_some hvalue⟩
  · cases h

theorem splitAtEquals_eq {equals : α} {tok key : List α} {attached : Option (List α)}
    (h : splitAtEquals equals tok = (key, attached)) :
    equals ∉ key ∧ tok = key ++ attached.elim [] (equals :: ·) := by
  rw [splitAtEquals] at h
  split at h
  · rename_i hsplit
    cases h
    obtain ⟨rfl, hfresh⟩ := Search.splitFirst_sound hsplit
    exact ⟨Search.fresh_singleton_iff.mp hfresh, by simp⟩
  · rename_i hsplit
    cases h
    refine ⟨?_, by simp⟩
    rw [← List.singleton_infix_iff]
    exact Search.splitFirst_eq_none_iff.mp hsplit

omit [DecidableEq α] in
/-- A long option's token starts with two dashes before its equals sign. -/
theorem take_two_key {d equals : α} {key : List α} {attached : Option (List α)} (hd : equals ≠ d)
    (h : (key ++ attached.elim [] (equals :: ·)).take 2 = [d, d]) : key.take 2 = [d, d] := by
  cases attached with
  | none => simpa using h
  | some value =>
      match key with
      | [] => simp [hd] at h
      | [x] => simp [hd] at h
      | x :: y :: key => simpa using h

/-- What is read of a token that starts with two dashes. -/
theorem fits_of_readLong (hdash : g.equals ≠ g.dash) {tok : List α} {rest : List (List α)}
    {reading : Reading α κ σ} (hflag : g.flag tok = none)
    (hdashes : tok.take 2 = [g.dash, g.dash]) (h : g.readOption tok rest.head? = .ok reading) :
    ∃ item, g.Fits item ∧ g.head item = tok ∧ rest = tail item ++ after rest reading ∧
      g.perform reading = g.effect item := by
  rw [readOption.eq_def, if_pos hdashes] at h
  obtain ⟨⟨key, attached⟩, hcut⟩ : ∃ p, splitAtEquals g.equals tok = p := ⟨_, rfl⟩
  obtain ⟨hequals, rfl⟩ := splitAtEquals_eq hcut
  have hkey := take_two_key hdash hdashes
  rw [hcut] at h
  cases hoption : g.long key with
  | error e =>
      simp only [hoption] at h
      cases h
  | ok option =>
      simp only [hoption] at h
      obtain ⟨value, usesNext, rfl, hvalue⟩ := readValue_eq_ok h
      rcases hvalue with ⟨rfl, rfl⟩ | ⟨rfl, rfl, hseparate, hrest⟩
      · exact ⟨.long key option value true, ⟨hflag, hkey, hequals, hoption, nofun⟩, rfl, rfl, rfl⟩
      · simp only [Option.elim_none, List.append_nil] at hflag ⊢
        exact ⟨.long key option value false,
          ⟨hflag, hkey, hequals, hoption, fun _ => hseparate⟩, rfl, hrest, rfl⟩

/-- What is read of a dash and a letter. -/
theorem fits_of_readShort {c : α} {more : List α} {rest : List (List α)}
    {reading : Reading α κ σ} (hflag : g.flag (g.dash :: c :: more) = none) (hc : c ≠ g.dash)
    (h : g.readOption (g.dash :: c :: more) rest.head? = .ok reading) :
    ∃ item, g.Fits item ∧ g.head item = g.dash :: c :: more ∧
      rest = tail item ++ after rest reading ∧ g.perform reading = g.effect item := by
  have hdashes : ¬ (g.dash :: c :: more).take 2 = [g.dash, g.dash] := by
    intro heq
    simp at heq
    exact hc heq
  rw [readOption.eq_def, if_neg hdashes] at h
  simp only [if_pos] at h
  cases hoption : g.short c (g.dash :: c :: more) with
  | error e =>
      simp only [hoption] at h
      cases h
  | ok option =>
      simp only [hoption] at h
      obtain ⟨value, usesNext, rfl, hvalue⟩ := readValue_eq_ok h
      by_cases hnil : more = []
      · subst hnil
        rcases hvalue with ⟨hattached, -⟩ | ⟨-, rfl, hseparate, hrest⟩
        · cases hattached
        · exact ⟨.short c option value false, ⟨hflag, hc, hoption, hseparate⟩, rfl, hrest, rfl⟩
      · rw [if_neg (by simpa using hnil)] at hvalue
        rcases hvalue with ⟨hattached, rfl⟩ | ⟨hattached, -⟩
        · cases hattached
          exact ⟨.short c option more true, ⟨hflag, hc, hoption, hnil⟩, rfl, rfl, rfl⟩
        · cases hattached

/-- **What is read is an item** of the grammar. -/
theorem fits_of_read (hdash : g.equals ≠ g.dash) {tok : List α} {rest : List (List α)}
    {reading : Reading α κ σ} (h : g.read tok rest.head? = .ok reading) :
    ∃ item, g.Fits item ∧ g.head item = tok ∧ rest = tail item ++ after rest reading ∧
      g.perform reading = g.effect item := by
  rw [read] at h
  cases hflag : g.flag tok with
  | some set =>
      rw [hflag] at h
      cases h
      refine ⟨.flag tok, by simp [Fits, hflag], rfl, rfl, ?_⟩
      funext st
      rw [perform, effect, hflag]
      rfl
  | none =>
      simp only [hflag] at h
      by_cases hdashes : tok.take 2 = [g.dash, g.dash]
      · exact fits_of_readLong hdash hflag hdashes h
      · match tok, hflag, h with
        | d :: c :: more, hflag, h =>
            by_cases hd : d = g.dash
            · subst hd
              have hc : c ≠ g.dash := by
                rintro rfl
                exact hdashes rfl
              exact fits_of_readShort hflag hc h
            · simp only [readOption, if_neg hdashes, if_neg hd] at h
              cases h
        | [_], _, h =>
            simp only [readOption, if_neg hdashes] at h
            cases h
        | [], _, h =>
            simp only [readOption, if_neg hdashes] at h
            cases h

/-- A successful loop reads one token, does its effect, and goes on after it. -/
theorem scan_cons_eq_ok_iff {tok : List α} {rest : List (List α)} {st st' : σ} :
    g.scan st (tok :: rest) = .ok st' ↔
      ∃ reading st₁, g.read tok rest.head? = .ok reading ∧ g.perform reading st = .ok st₁ ∧
        g.scan st₁ (after rest reading) = .ok st' := by
  rw [scan]
  constructor
  · intro h
    cases hread : g.read tok rest.head? with
    | error e =>
        simp only [hread] at h
        cases h
    | ok reading =>
        simp only [hread] at h
        cases hst : g.perform reading st with
        | error e =>
            simp only [hst] at h
            cases h
        | ok st₁ =>
            simp only [hst] at h
            exact ⟨reading, st₁, rfl, hst, h⟩
  · rintro ⟨reading, st₁, hread, hst, h⟩
    simp only [hread, hst]
    exact h

/-- **The accepted command lines** are the concatenations of items, and the state is that
after their effects. -/
theorem scan_eq_ok_iff (hdash : g.equals ≠ g.dash) {st st' : σ} {toks : List (List α)} :
    g.scan st toks = .ok st' ↔
      ∃ items : List (Item α κ), (∀ item ∈ items, g.Fits item) ∧ toks = items.flatMap g.tokens ∧
        items.foldlM (fun st item => g.effect item st) st = .ok st' := by
  constructor
  · -- a reading can take two tokens, so the induction is on the number of tokens
    induction hn : toks.length using Nat.strongRecOn generalizing toks st with
    | ind n ih =>
        intro h
        cases toks with
        | nil =>
            rw [scan] at h
            exact ⟨[], by simp, rfl, h⟩
        | cons tok rest =>
            obtain ⟨reading, st₁, hread, hst, hscan⟩ := scan_cons_eq_ok_iff.mp h
            obtain ⟨item, hfits, rfl, hrest, heffect⟩ := fits_of_read hdash hread
            have hlen := length_after_le rest reading
            rw [List.length_cons] at hn
            obtain ⟨items, hall, hafter, hfold⟩ := ih _ (by omega) rfl hscan
            refine ⟨item :: items, List.forall_mem_cons.mpr ⟨hfits, hall⟩, ?_, ?_⟩
            · rw [List.flatMap_cons, ← hafter, tokens, List.cons_append, ← hrest]
            · rw [List.foldlM_cons, ← heffect, hst]
              exact hfold
  · rintro ⟨items, hall, rfl, hfold⟩
    induction items generalizing st with
    | nil =>
        rw [List.flatMap_nil, scan]
        exact hfold
    | cons item items ih =>
        obtain ⟨hfits, hall⟩ := List.forall_mem_cons.mp hall
        obtain ⟨reading, hread, hafter, heffect⟩ :=
          g.read_of_fits hfits (items.flatMap g.tokens)
        rw [List.foldlM_cons] at hfold
        rw [List.flatMap_cons, tokens, List.cons_append, scan_cons_eq_ok_iff]
        cases hst : g.effect item st with
        | error e =>
            rw [hst] at hfold
            cases hfold
        | ok st₁ =>
            rw [hst] at hfold
            refine ⟨reading, st₁, hread, by rw [heffect, hst], ?_⟩
            rw [hafter]
            exact ih hall hfold

/-- **What every option keeps holds after the loop.** -/
theorem scan_preserves (hdash : g.equals ≠ g.dash) {P : σ → Prop}
    (hflag : ∀ tok set, g.flag tok = some set → ∀ st, P st → P (set st))
    (hset : ∀ option value st st', g.set option value st = .ok st' → P st → P st')
    {st st' : σ} {toks : List (List α)} (h : g.scan st toks = .ok st') (hst : P st) : P st' := by
  obtain ⟨items, -, -, hfold⟩ := (scan_eq_ok_iff hdash).mp h
  have heffect : ∀ item st st', g.effect item st = .ok st' → P st → P st' := by
    intro item st st' heffect hst
    cases item with
    | flag tok =>
        obtain rfl := Except.ok.inj heffect
        cases hf : g.flag tok with
        | none => exact hst
        | some set => exact hflag tok set hf st hst
    | long key option value attached => exact hset option value st st' heffect hst
    | short c option value attached => exact hset option value st st' heffect hst
  clear h
  induction items generalizing st with
  | nil =>
      obtain rfl := Except.ok.inj hfold
      exact hst
  | cons item items ih =>
      rw [List.foldlM_cons] at hfold
      cases hitem : g.effect item st with
      | error e =>
          rw [hitem] at hfold
          cases hfold
      | ok st₁ =>
          rw [hitem] at hfold
          exact ih (heffect item st st₁ hitem hst) hfold

end Grammar

/-! ## Two grammars -/

section
variable {ε' κ' σ' : Type}

/-- Both fail, or both succeed with related results. -/
def Agree {β γ : Type} (R : β → γ → Prop) : Except ε β → Except ε' γ → Prop
  | .error _, .error _ => True
  | .ok b, .ok c => R b c
  | _, _ => False

omit [DecidableEq α] in
theorem agree_iff {β γ : Type} {R : β → γ → Prop} {x : Except ε β} {y : Except ε' γ} :
    Agree R x y ↔ (∃ e e', x = .error e ∧ y = .error e') ∨
      ∃ b c, x = .ok b ∧ y = .ok c ∧ R b c := by
  cases x <;> cases y <;> simp [Agree]

omit [DecidableEq α] in
theorem Agree.ite {β γ : Type} {R : β → γ → Prop} {p : Prop} [Decidable p] {x x' : Except ε β}
    {y y' : Except ε' γ} (h : Agree R x y) (h' : Agree R x' y') :
    Agree R (if p then x else x') (if p then y else y') := by
  by_cases hp : p
  · rwa [if_pos hp, if_pos hp]
  · rwa [if_neg hp, if_neg hp]

/-- Two grammars know the same options for a token, related by `S`, and no flags. -/
structure AgreesOn (g : Grammar α ε κ σ) (g' : Grammar α ε' κ' σ') (S : κ → κ' → Prop)
    (tok : List α) : Prop where
  flag : g.flag tok = none
  flag' : g'.flag tok = none
  long : Agree S (g.long (splitAtEquals g.equals tok).1) (g'.long (splitAtEquals g.equals tok).1)
  short : ∀ c, Agree S (g.short c tok) (g'.short c tok)

/-- The same option, by `S`, with the same value. -/
def SameReading (S : κ → κ' → Prop) (reading : Reading α κ σ) (reading' : Reading α κ' σ') :
    Prop :=
  ∃ option option' value usesNext, reading = .valued option value usesNext ∧
    reading' = .valued option' value usesNext ∧ S option option'

variable {g : Grammar α ε κ σ} {g' : Grammar α ε' κ' σ'} {S : κ → κ' → Prop}

theorem readValue_agree (hdash : g'.dash = g.dash) {option : κ} {option' : κ'}
    (hS : S option option') (name : List α) (attached next : Option (List α)) :
    Agree (SameReading S) (g.readValue name option attached next)
      (g'.readValue name option' attached next) := by
  rw [Grammar.readValue, Grammar.readValue, hdash]
  cases takeValue g.dash attached next with
  | none => trivial
  | some p => exact ⟨option, option', p.1, p.2, rfl, rfl, hS⟩

theorem read_agree (hdash : g'.dash = g.dash) (hequals : g'.equals = g.equals) {tok : List α}
    (agrees : AgreesOn g g' S tok) (next : Option (List α)) :
    Agree (SameReading S) (g.read tok next) (g'.read tok next) := by
  obtain ⟨hflag, hflag', hlong, hshort⟩ := agrees
  simp only [Grammar.read, hflag, hflag']
  rw [Grammar.readOption.eq_def, Grammar.readOption.eq_def, hdash, hequals]
  by_cases hdashes : tok.take 2 = [g.dash, g.dash]
  · simp only [if_pos hdashes]
    rcases agree_iff.mp hlong with ⟨e, e', h, h'⟩ | ⟨option, option', h, h', hS⟩
    · simp only [h, h']
      trivial
    · simp only [h, h']
      exact readValue_agree hdash hS _ _ _
  · simp only [if_neg hdashes]
    match tok, hshort with
    | d :: c :: rest, hshort =>
        by_cases hd : d = g.dash
        · simp only [if_pos hd]
          rcases agree_iff.mp (hshort c) with ⟨e, e', h, h'⟩ | ⟨option, option', h, h', hS⟩
          · simp only [h, h']
            trivial
          · simp only [h, h']
            exact readValue_agree hdash hS _ _ _
        · simp only [if_neg hd]
          trivial
    | [_], _ => trivial
    | [], _ => trivial

omit [DecidableEq α] in
theorem mem_of_mem_after {rest : List (List α)} {reading : Reading α κ σ} {tok : List α}
    (h : tok ∈ Grammar.after rest reading) : tok ∈ rest := by
  rw [Grammar.after.eq_def] at h
  split at h
  · exact List.mem_of_mem_tail h
  · exact h

/-- **Two grammars that agree on every token of a command line** accept it both or not at
all, and come to related states. -/
theorem scan_agree (hdash : g'.dash = g.dash) (hequals : g'.equals = g.equals)
    {R : σ → σ' → Prop}
    (hset : ∀ option option', S option option' → ∀ value st st', R st st' →
      Agree R (g.set option value st) (g'.set option' value st'))
    {toks : List (List α)} (htoks : ∀ tok ∈ toks, AgreesOn g g' S tok) {st : σ} {st' : σ'}
    (hst : R st st') : Agree R (g.scan st toks) (g'.scan st' toks) := by
  induction hn : toks.length using Nat.strongRecOn generalizing toks st st' with
  | ind n ih =>
      cases toks with
      | nil =>
          rw [Grammar.scan, Grammar.scan]
          exact hst
      | cons tok rest =>
          obtain ⟨htok, hrest⟩ := List.forall_mem_cons.mp htoks
          rw [Grammar.scan, Grammar.scan]
          rcases agree_iff.mp (read_agree hdash hequals htok rest.head?) with
            ⟨e, e', h, h'⟩ | ⟨_, _, h, h', option, option', value, usesNext, rfl, rfl, hS⟩
          · simp only [h, h']
            trivial
          · simp only [h, h', Grammar.perform]
            rcases agree_iff.mp (hset option option' hS value st st' hst) with
              ⟨e, e', h, h'⟩ | ⟨st₁, st₁', h, h', hst₁⟩
            · simp only [h, h']
              trivial
            · simp only [h, h']
              have hafter : Grammar.after rest (.valued option' value usesNext : Reading α κ' σ') =
                  Grammar.after rest (.valued option value usesNext : Reading α κ σ) := by
                cases usesNext <;> rfl
              rw [hafter]
              have hlen := Grammar.length_after_le rest
                (.valued option value usesNext : Reading α κ σ)
              rw [List.length_cons] at hn
              exact ih _ (by omega) (fun tok h => hrest tok (mem_of_mem_after h)) hst₁ rfl

end
end Options
