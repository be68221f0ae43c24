import EdgeTts.Communication.EdgeTokenProvider
import EdgeTts.Lib.CivilTime

/-!
# `communication/HttpDate.cpp`

The date header of a moment is read as the seconds from 1970 to that moment.
`daysFromCivil` counts years from March and in eras of 400 years; that it counts the days of
the calendar is `daysFromCivil_eq`, and the rest is the scanner on the text of a date.
-/
namespace EdgeTts

open Calendar (Civil monthLength daysBeforeMonth leapsBefore isLeap)

/-! ## `days_from_civil` -/

/-- The era and the year of the era count the years of the calendar. -/
theorem era_days {y : Int} (h : 0 ≤ y) :
    y.tdiv 400 * 146097 + ((y - y.tdiv 400 * 400) * 365 + (y - y.tdiv 400 * 400).tdiv 4 -
      (y - y.tdiv 400 * 400).tdiv 100) = 365 * y + y / 4 - y / 100 + y / 400 := by
  have hyoe : 0 ≤ y - y / 400 * 400 := by omega
  simp only [Int.tdiv_eq_ediv_of_nonneg h, Int.tdiv_eq_ediv_of_nonneg hyoe]
  omega

/-- The months from January to March of a year are the last ones of the year before. -/
theorem daysFromCivil_of_le_two {y m d : Int} (hy : 1 ≤ y) (hm : 1 ≤ m) (h : m ≤ 2) :
    daysFromCivil y m d = 365 * (y - 1) + (y - 1) / 4 - (y - 1) / 100 + (y - 1) / 400 +
      ((153 * (m + 9) + 2) / 5 + d - 1) - 719468 := by
  have hera := era_days (show 0 ≤ y - 1 by omega)
  have hmonth : (153 * (m + 9) + 2).tdiv 5 = (153 * (m + 9) + 2) / 5 :=
    Int.tdiv_eq_ediv_of_nonneg (by omega)
  simp only [daysFromCivil, if_pos h, if_neg (show ¬ m > 2 by omega), hmonth]
  rw [← hera]
  ring

theorem daysFromCivil_of_two_lt {y m d : Int} (hy : 0 ≤ y) (h : 2 < m) :
    daysFromCivil y m d = 365 * y + y / 4 - y / 100 + y / 400 +
      ((153 * (m - 3) + 2) / 5 + d - 1) - 719468 := by
  have hera := era_days hy
  have hmonth : (153 * (m - 3) + 2).tdiv 5 = (153 * (m - 3) + 2) / 5 :=
    Int.tdiv_eq_ediv_of_nonneg (by omega)
  simp only [daysFromCivil, if_neg (show ¬ m ≤ 2 by omega), if_pos (show m > 2 from h), hmonth]
  rw [← hera]
  ring

/-- From March on, five months are `153` days. -/
theorem march_days : ∀ leap : Bool, ∀ month < 12,
    if month < 2 then (153 * (month + 10) + 2) / 5 = 306 + daysBeforeMonth leap month
    else (153 * (month - 2) + 2) / 5 + (if leap then 60 else 59) = daysBeforeMonth leap month := by
  decide

/-- **`days_from_civil` counts the days of the calendar.** -/
theorem daysFromCivil_eq (t : Civil) (h : 1970 ≤ t.year) :
    daysFromCivil t.year (t.month + 1) t.day = t.dayNumber 1970 := by
  have hyears := Calendar.daysBeforeYear_eq h
  have hmonths := march_days (isLeap t.year) t.month t.month_lt
  have hday := t.day_pos
  rw [show leapsBefore 1970 = 478 from rfl] at hyears
  rw [Civil.dayNumber]
  by_cases hm : t.month < 2
  · rw [if_pos hm] at hmonths
    rw [daysFromCivil_of_le_two (by omega) (by omega) (by omega)]
    rw [leapsBefore] at hyears
    omega
  · rw [if_neg hm] at hmonths
    have hleaps := Calendar.leapsBefore_succ t.year
    rw [daysFromCivil_of_two_lt (by omega) (by omega)]
    rw [leapsBefore, leapsBefore] at hleaps
    rw [leapsBefore] at hyears
    by_cases hleap : isLeap t.year = true
    · rw [if_pos hleap] at hleaps hmonths
      omega
    · rw [if_neg hleap] at hleaps hmonths
      omega

/-! ## The text of a date -/

/-- The names of the days. -/
def dayNames : List Bytes :=
  [lit "Mon", lit "Tue", lit "Wed", lit "Thu", lit "Fri", lit "Sat", lit "Sun"]

/-- A number with at least `width` digits. -/
def numeral (width n : Nat) : Bytes := Decimal.pad width (Decimal.ofNat n)

/-- `Wkd, DD Mon YYYY HH:MM:SS GMT`. -/
def httpDate (wkd : Bytes) (t : Civil) : Bytes :=
  wkd ++ lit ", " ++ numeral 2 t.day ++ lit " " ++ httpMonths.getD t.month [] ++ lit " " ++
    numeral 4 t.year ++ lit " " ++ numeral 2 t.hour ++ lit ":" ++ numeral 2 t.min ++ lit ":" ++
    numeral 2 t.sec ++ lit " GMT"

theorem digit_iff {c : UInt8} : digit c = true ↔ Decimal.IsDigit c := by
  simp only [digit, Decimal.IsDigit, Bool.and_eq_true, decide_eq_true_eq, UInt8.le_iff_toNat_le]
  rfl

theorem digit_of_mem_numeral {width n : Nat} {c : UInt8} (h : c ∈ numeral width n) :
    digit c = true :=
  digit_iff.mpr (Decimal.isDigit_of_mem_pad (fun _ => Decimal.isDigit_of_mem_ofNat) h)

theorem numeral_ne_nil (width n : Nat) : numeral width n ≠ [] :=
  Decimal.pad_ne_nil (Decimal.ofNat_ne_nil n)

theorem toNat_numeral (width n : Nat) : Decimal.toNat (numeral width n) = n := by
  rw [numeral, Decimal.toNat_pad, Decimal.toNat_ofNat]

theorem isSpace_of_digit {c : UInt8} (h : digit c = true) : isSpace c = false := by
  by_contra hspace
  simp only [isSpace, Bool.not_eq_false, Bool.or_eq_true, beq_iff_eq, Bool.and_eq_true,
    decide_eq_true_eq, UInt8.le_iff_toNat_le, ← UInt8.toNat_inj] at hspace
  simp only [digit, Bool.and_eq_true, decide_eq_true_eq, UInt8.le_iff_toNat_le] at h
  simp at h hspace
  omega

theorem scanDigits_numeral (width n : Nat) {c : UInt8} (hc : digit c = false) (rest : Bytes) :
    scanDigits (numeral width n ++ c :: rest) = some (n, c :: rest) := by
  have hall : ∀ x ∈ numeral width n, digit x = true := fun x => digit_of_mem_numeral
  simp only [scanDigits, Search.takeWhile_append_stop hall hc, Search.dropWhile_append_stop hall hc,
    List.isEmpty_iff, numeral_ne_nil, if_false, toNat_numeral]

theorem skipSpace_space (s : Bytes) : skipSpace (0x20 :: s) = skipSpace s := rfl

theorem skipSpace_cons {c : UInt8} (hc : isSpace c = false) (s : Bytes) :
    skipSpace (c :: s) = c :: s :=
  List.dropWhile_cons_of_neg (by simp [hc])

/-- A word is not passed over. -/
theorem skipSpace_append {word : Bytes} (hne : word ≠ []) (hword : ∀ c ∈ word, isSpace c = false)
    (rest : Bytes) : skipSpace (word ++ rest) = word ++ rest := by
  obtain ⟨x, l, rfl⟩ := List.exists_cons_of_ne_nil hne
  exact skipSpace_cons (hword x List.mem_cons_self) _

theorem skipSpace_numeral (width n : Nat) (rest : Bytes) :
    skipSpace (numeral width n ++ rest) = numeral width n ++ rest :=
  skipSpace_append (numeral_ne_nil width n)
    (fun _ hc => isSpace_of_digit (digit_of_mem_numeral hc)) rest

theorem toInt32_of_lt {n : Nat} (h : n < 2 ^ 31) : toInt32 n = n := by
  rw [toInt32]
  have hmax : max (-(2 ^ 63)) (min (2 ^ 63 - 1) (n : Int)) = n := by omega
  rw [hmax]
  exact Int.bmod_eq_of_le_mul_two (by omega) (by omega)

theorem scanInt_numeral {width n : Nat} (h : n < 2 ^ 31) {c : UInt8} (hc : digit c = false)
    (rest : Bytes) : scanInt (numeral width n ++ c :: rest) = some ((n : Int), c :: rest) := by
  have hscan := scanDigits_numeral width n hc rest
  obtain ⟨x, l, hnumeral⟩ := List.exists_cons_of_ne_nil (numeral_ne_nil width n)
  have hx : digit x = true := digit_of_mem_numeral (hnumeral ▸ List.mem_cons_self)
  rw [hnumeral, List.cons_append] at hscan ⊢
  rw [scanInt, skipSpace_cons (isSpace_of_digit hx)]
  split
  · rename_i heq
    cases heq
    cases hx
  · rename_i heq
    cases heq
    cases hx
  · rw [hscan, Option.map_some, toInt32_of_lt h]

/-- The space in front of a number is passed over. -/
theorem scanInt_space {width n : Nat} (h : n < 2 ^ 31) {c : UInt8} (hc : digit c = false)
    (rest : Bytes) :
    scanInt (skipSpace (0x20 :: (numeral width n ++ c :: rest))) = some ((n : Int), c :: rest) := by
  rw [skipSpace_space, skipSpace_numeral, scanInt_numeral h hc]

theorem scanWord_space {word : Bytes} (hne : word ≠ []) (hlength : word.length ≤ 7)
    (hword : ∀ c ∈ word, isSpace c = false) (rest : Bytes) :
    scanWord (skipSpace (0x20 :: (word ++ 0x20 :: rest))) = some (word, 0x20 :: rest) := by
  have hskip := skipSpace_append hne hword (0x20 :: rest)
  have hstop : ((0x20 :: rest).take (7 - word.length)).takeWhile (fun c => !isSpace c) = [] := by
    cases 7 - word.length with
    | zero => rfl
    | succ k => rfl
  have htake : ((word ++ 0x20 :: rest).take 7).takeWhile (fun c => !isSpace c) = word := by
    rw [List.take_append, List.take_of_length_le hlength,
      List.takeWhile_append_of_pos (fun c hc => by rw [hword c hc]; rfl), hstop, List.append_nil]
  rw [skipSpace_space, hskip]
  simp only [scanWord, hskip, htake, List.isEmpty_iff, hne, if_false, List.drop_left]

theorem scanNotComma_append {name : Bytes} (hne : name ≠ [])
    (hname : ∀ c ∈ name, (c != 0x2C) = true) (rest : Bytes) :
    scanNotComma (name ++ 0x2C :: rest) = some (0x2C :: rest) := by
  have hcomma : ((0x2C : UInt8) != 0x2C) = false := rfl
  simp only [scanNotComma, Search.takeWhile_append_stop hname hcomma,
    Search.dropWhile_append_stop hname hcomma, List.isEmpty_iff, hne, if_false]

theorem dayNames_plain : ∀ wkd ∈ dayNames,
    wkd ≠ [] ∧ (∀ c ∈ wkd, (c != 0x2C) = true) ∧ ∀ c ∈ wkd, (c != 0) = true := by
  decide +kernel

/-- The month is found by its name. -/
theorem httpMonths_plain : ∀ month < 12, httpMonths.getD month [] ≠ [] ∧
    (httpMonths.getD month []).length ≤ 7 ∧
    (∀ c ∈ httpMonths.getD month [], isSpace c = false ∧ (c != 0) = true) ∧
    httpMonths.idxOf? (httpMonths.getD month []) = some month := by
  decide +kernel

/-- The text, cut where the scanner stops. -/
theorem httpDate_eq (wkd : Bytes) (t : Civil) : httpDate wkd t =
    wkd ++ 0x2C :: (0x20 :: (numeral 2 t.day ++ 0x20 :: (httpMonths.getD t.month [] ++ 0x20 ::
      (numeral 4 t.year ++ 0x20 :: (numeral 2 t.hour ++ 0x3A :: (numeral 2 t.min ++ 0x3A ::
        (numeral 2 t.sec ++ 0x20 :: lit "GMT"))))))) := by
  have hcomma : lit ", " = [0x2C, 0x20] := rfl
  have hspace : lit " " = [0x20] := rfl
  have hcolon : lit ":" = [0x3A] := rfl
  have hzone : lit " GMT" = 0x20 :: lit "GMT" := rfl
  simp only [httpDate, hcomma, hspace, hcolon, hzone, List.append_assoc, List.cons_append,
    List.nil_append]

theorem ne_zero_of_mem_httpDate {wkd : Bytes} (hwkd : wkd ∈ dayNames) (t : Civil) :
    ∀ c ∈ httpDate wkd t, (c != 0) = true := by
  have hdigit : ∀ {width n : Nat}, ∀ c ∈ numeral width n, (c != 0) = true := by
    intro width n c hc
    rw [bne_iff_ne]
    rintro rfl
    cases digit_of_mem_numeral hc
  have hmonth : ∀ c ∈ httpMonths.getD t.month [], (c != 0) = true := fun c hc =>
    ((httpMonths_plain t.month t.month_lt).2.2.1 c hc).2
  have hzone : ∀ c ∈ lit "GMT", (c != 0) = true := by decide +kernel
  rw [httpDate_eq]
  simp only [List.forall_mem_append, List.forall_mem_cons]
  exact ⟨(dayNames_plain wkd hwkd).2.2, rfl, rfl, hdigit, rfl, hmonth, rfl, hdigit, rfl, hdigit,
    rfl, hdigit, rfl, hdigit, rfl, hzone⟩

theorem monthLength_le (leap : Bool) : ∀ month < 12, monthLength leap month ≤ 31 := by
  cases leap <;> decide

/-- A step of the scanner that succeeds. -/
theorem scan_bind {α β : Type} {x : Option α} {f : α → Option β} {a : α} (hx : x = some a) :
    (x >>= f) = f a := by
  rw [hx]
  rfl

/-- **A date is read as the seconds from 1970.** -/
theorem parseHttpDate_httpDate {wkd : Bytes} (hwkd : wkd ∈ dayNames) {t : Civil}
    (hyear : 1970 ≤ t.year) (hint : t.year < 2 ^ 31) :
    parseHttpDate (httpDate wkd t) = some (t.seconds 1970 : Int) := by
  have htext : (httpDate wkd t).takeWhile (· != 0) = httpDate wkd t :=
    List.takeWhile_eq_self_iff.mpr (ne_zero_of_mem_httpDate hwkd t)
  obtain ⟨hname, hcomma, -⟩ := dayNames_plain wkd hwkd
  obtain ⟨hmonth, hlength, hplain, hindex⟩ := httpMonths_plain t.month t.month_lt
  have hday := monthLength_le (isLeap t.year) t.month t.month_lt
  have := t.day_le
  have := t.day_pos
  have := t.hour_lt
  have := t.min_lt
  have := t.sec_lt
  rw [parseHttpDate, htext, httpDate_eq]
  refine (scan_bind (scanNotComma_append hname hcomma _)).trans ?_
  refine (scan_bind rfl).trans ?_
  refine (scan_bind (scanInt_space (by omega) rfl _)).trans ?_
  refine (scan_bind (scanWord_space hmonth hlength (fun c hc => (hplain c hc).1) _)).trans ?_
  refine (scan_bind (scanInt_space hint rfl _)).trans ?_
  refine (scan_bind (scanInt_space (by omega) rfl _)).trans ?_
  refine (scan_bind rfl).trans ?_
  refine (scan_bind (scanInt_numeral (by omega) rfl _)).trans ?_
  refine (scan_bind rfl).trans ?_
  refine (scan_bind (scanInt_numeral (by omega) rfl _)).trans ?_
  refine (scan_bind rfl).trans ?_
  refine (scan_bind hindex).trans ?_
  rw [if_neg (by omega), if_neg (by omega), if_neg (by omega), if_neg (by omega),
    daysFromCivil_eq t hyear, Civil.seconds]
  push_cast
  rfl

/-- **Dates are read exactly**: as the seconds from 1970 in the calendar, so two texts have one
value just when they name one moment, and the later moment has the larger value.  The name of
the day is not looked at; the year is one that `%d` can store. -/
theorem parseHttpDate_exact {wkd wkd' : Bytes} (hwkd : wkd ∈ dayNames) (hwkd' : wkd' ∈ dayNames)
    {t t' : Civil} (hyear : 1970 ≤ t.year) (hint : t.year < 2 ^ 31) (hyear' : 1970 ≤ t'.year)
    (hint' : t'.year < 2 ^ 31) :
    parseHttpDate (httpDate wkd t) = some (t.seconds 1970 : Int) ∧
    (parseHttpDate (httpDate wkd t) = parseHttpDate (httpDate wkd' t') → t = t') ∧
    (t.Before t' → ∃ s s', parseHttpDate (httpDate wkd t) = some s ∧
      parseHttpDate (httpDate wkd' t') = some s' ∧ s < s') := by
  have hparse := parseHttpDate_httpDate hwkd hyear hint
  have hparse' := parseHttpDate_httpDate hwkd' hyear' hint'
  refine ⟨hparse, ?_, ?_⟩
  · intro heq
    rw [hparse, hparse', Option.some.injEq] at heq
    exact Civil.eq_of_seconds_eq hyear hyear' (by exact_mod_cast heq)
  · intro hbefore
    have hlt := Civil.seconds_lt hyear hbefore
    exact ⟨_, _, hparse, hparse', by exact_mod_cast hlt⟩

/-- The last second of a leap February and the first one of March. -/
theorem parseHttpDate_exact_leapDay :
    ∃ s s', parseHttpDate (lit "Thu, 29 Feb 2024 23:59:59 GMT") = some s ∧
      parseHttpDate (lit "Fri, 01 Mar 2024 00:00:00 GMT") = some s' ∧ s < s' := by
  let t : Civil := ⟨2024, 1, 29, 23, 59, 59, by decide, by decide, by decide, by decide, by decide,
    by decide⟩
  let t' : Civil := ⟨2024, 2, 1, 0, 0, 0, by decide, by decide, by decide, by decide, by decide,
    by decide⟩
  have hwkd : lit "Thu" ∈ dayNames := by decide
  have hwkd' : lit "Fri" ∈ dayNames := by decide
  have htext : httpDate (lit "Thu") t = lit "Thu, 29 Feb 2024 23:59:59 GMT" := by decide
  have htext' : httpDate (lit "Fri") t' = lit "Fri, 01 Mar 2024 00:00:00 GMT" := by decide
  have hyear : 1970 ≤ t.year ∧ t.year < 2 ^ 31 := by decide
  have hyear' : 1970 ≤ t'.year ∧ t'.year < 2 ^ 31 := by decide
  have hbefore : t.Before t' := .cons (.rel (by decide))
  rw [← htext, ← htext']
  exact (parseHttpDate_exact hwkd hwkd' hyear.1 hyear.2 hyear'.1 hyear'.2).2.2 hbefore

end EdgeTts
