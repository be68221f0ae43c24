import EdgeTts.Lib.MachineInt
import EdgeTts.Communication.HttpDate

/-!
# The arithmetic of `HttpDate.cpp`

`days_from_civil` and `parse_http_date` once more, with every operation on an `int` or an
`int64` in the type in which the source performs it.  `sscanf` is left open: a `%d` may store
any `int`.
-/
namespace EdgeTts

open MachineInt

/-- What `sscanf` stores when all seven fields are read. -/
structure ScannedDate where
  day : Int32
  mon : Bytes
  year : Int32
  hour : Int32
  min : Int32
  sec : Int32
  deriving DecidableEq

namespace HttpDateArithmetic

/-- `days_from_civil`. -/
def daysFromCivil (y m d : Int) : Calc Int := do
  let y ← op .int (y - if m ≤ 2 then 1 else 0)
  let era ← op .int64 (y.tdiv 400)
  let years ← op .int64 (era * 400)
  let yoe ← op .int (y - IntType.int.wrap years)
  let mp ← op .int (if m > 2 then m - 3 else m + 9)
  let days ← op .int (153 * mp)
  let days ← op .int (days + 2)
  let days ← op .int (days.tdiv 5)
  let days ← op .int (days + d)
  let doy ← op .int (days - 1)
  let days ← op .int (yoe * 365)
  let leaps ← op .int (yoe.tdiv 4)
  let days ← op .int (days + leaps)
  let centuries ← op .int (yoe.tdiv 100)
  let days ← op .int (days - centuries)
  let doe ← op .int (days + doy)
  let days ← op .int64 (era * 146097)
  let days ← op .int64 (days + doe)
  op .int64 (days - 719468)

/-- The loop over `kMonths`, from the index `i` on; 0 where no name is equal. -/
def monthNumber (mon : Bytes) : List Bytes → Int → Calc Int
  | [], _ => return 0
  | name :: names, i =>
      if mon = name then op .int (i + 1)
      else do
        let i ← op .int (i + 1)
        monthNumber mon names i

/-- The sum at the end of `parse_http_date`. -/
def timestamp (days hour min sec : Int) : Calc Int := do
  let ts ← op .int64 (days * 86400)
  let hours ← op .int64 (hour * 3600)
  let ts ← op .int64 (ts + hours)
  let mins ← op .int64 (min * 60)
  let ts ← op .int64 (ts + mins)
  op .int64 (ts + sec)

/-- The checks and the sum of `parse_http_date`. -/
def timestampOf (date : ScannedDate) : Calc (Option Int) := do
  let month ← monthNumber date.mon httpMonths 0
  if month = 0 then return none
  else if date.day.toInt < 1 ∨ date.day.toInt > 31 then return none
  else if date.hour.toInt < 0 ∨ date.hour.toInt > 23 then return none
  else if date.min.toInt < 0 ∨ date.min.toInt > 59 then return none
  else if date.sec.toInt < 0 ∨ date.sec.toInt > 60 then return none
  else do
    let days ← daysFromCivil date.year.toInt month date.day.toInt
    let ts ← timestamp days date.hour.toInt date.min.toInt date.sec.toInt
    return some ts

/-- `parse_http_date`. -/
def parseHttpDate (sscanf : Bytes → Option ScannedDate) (date : Bytes) : Calc (Option Int) :=
  if date.isEmpty then return none
  else
    match sscanf date with
    | none => return none
    | some date => timestampOf date

/-! ## Days -/

/-- An `int` in a small range. -/
theorem fits_int {n : Int} (hlow : -2 ^ 31 ≤ n) (hhigh : n < 2 ^ 31) : IntType.int.Fits n :=
  ⟨hlow, hhigh⟩

theorem fits_int64 {n : Int} (hlow : -2 ^ 63 ≤ n) (hhigh : n < 2 ^ 63) : IntType.int64.Fits n :=
  ⟨hlow, hhigh⟩

/-- The day of the year, counted from March. -/
theorem marchDay_bounds {m : Int} (hm : 1 ≤ m ∧ m ≤ 12) :
    (0 ≤ if m > 2 then m - 3 else m + 9) ∧ (if m > 2 then m - 3 else m + 9) ≤ 11 := by
  by_cases h : m > 2
  · rw [if_pos h]
    omega
  · rw [if_neg h]
    omega

/-- The quotients of `days_from_civil`, but for the era. -/
theorem quotient_bounds {yoe mp : Int} (hyoe : -400 < yoe) (hyoe' : yoe < 400) (hmp : 0 ≤ mp)
    (hmp' : mp ≤ 11) :
    (0 ≤ (153 * mp + 2).tdiv 5 ∧ (153 * mp + 2).tdiv 5 ≤ 337) ∧
    (-100 ≤ yoe.tdiv 4 ∧ yoe.tdiv 4 ≤ 100) ∧ -4 ≤ yoe.tdiv 100 ∧ yoe.tdiv 100 ≤ 4 := by
  have hdays := tdiv_bounds (153 * mp + 2) (b := 5) (by decide)
  have hleaps := tdiv_bounds yoe (b := 4) (by decide)
  have hcenturies := tdiv_bounds yoe (b := 100) (by decide)
  refine ⟨?_, ?_, ?_⟩
  · omega
  · omega
  · omega

/-- **The days of a date** are computed without overflow, unless the year before the least one
is needed. -/
theorem daysFromCivil_yields {y m d : Int} (hy : IntType.int.Fits y)
    (hbefore : m ≤ 2 → y ≠ -2 ^ 31) (hm : 1 ≤ m ∧ m ≤ 12) (hd : 1 ≤ d ∧ d ≤ 31) :
    Yields (daysFromCivil y m d) (EdgeTts.daysFromCivil y m d) := by
  have hyear : (y - if m ≤ 2 then 1 else 0) = if m ≤ 2 then y - 1 else y := by
    by_cases h : m ≤ 2
    · rw [if_pos h, if_pos h]
    · rw [if_neg h, if_neg h, Int.sub_zero]
  have hfits : IntType.int.Fits (if m ≤ 2 then y - 1 else y) := by
    obtain ⟨hlow, hhigh⟩ := hy
    by_cases h : m ≤ 2
    · have := hbefore h
      rw [if_pos h]
      exact fits_int (by omega) (by omega)
    · rw [if_neg h]
      exact ⟨hlow, hhigh⟩
  unfold daysFromCivil
  dsimp only [EdgeTts.daysFromCivil]
  rw [hyear]
  refine (yields_op hfits).bind ?_
  obtain ⟨hlow, hhigh⟩ := hfits
  generalize (if m ≤ 2 then y - 1 else y) = y at hlow hhigh ⊢
  have hera := tdiv_bounds y (b := 400) (by decide)
  generalize y.tdiv 400 = era at hera ⊢
  have hwrap : IntType.int.wrap (era * 400) = era * 400 :=
    IntType.wrap_of_fits (fits_int (by omega) (by omega))
  refine (yields_op (fits_int64 (by omega) (by omega))).bind ?_
  refine (yields_op (fits_int64 (by omega) (by omega))).bind ?_
  rw [hwrap]
  refine (yields_op (fits_int (by omega) (by omega))).bind ?_
  -- from here on everything is small, but for the era
  obtain ⟨hyoe, hyoe'⟩ : -400 < y - era * 400 ∧ y - era * 400 < 400 := by omega
  replace hera : -2 ^ 23 < era ∧ era < 2 ^ 23 := by omega
  generalize y - era * 400 = yoe at hyoe hyoe' ⊢
  obtain ⟨hmp, hmp'⟩ := marchDay_bounds hm
  generalize (if m > 2 then m - 3 else m + 9) = mp at hmp hmp' ⊢
  obtain ⟨⟨hdays, hdays'⟩, ⟨hleaps, hleaps'⟩, hcenturies, hcenturies'⟩ :=
    quotient_bounds hyoe hyoe' hmp hmp'
  iterate 12 refine (yields_op (fits_int (by omega) (by omega))).bind ?_
  refine (yields_op (fits_int64 (by omega) (by omega))).bind ?_
  refine (yields_op (fits_int64 (by omega) (by omega))).bind ?_
  exact yields_op (fits_int64 (by omega) (by omega))

/-- Days are few beside the range of an `int64`. -/
theorem daysFromCivil_bounds {y m d : Int} (hy : IntType.int.Fits y) (hm : 1 ≤ m ∧ m ≤ 12)
    (hd : 1 ≤ d ∧ d ≤ 31) :
    -2 ^ 46 ≤ EdgeTts.daysFromCivil y m d ∧ EdgeTts.daysFromCivil y m d < 2 ^ 46 := by
  obtain ⟨hlow, hhigh⟩ : -2 ^ 31 - 1 ≤ (if m ≤ 2 then y - 1 else y) ∧
      (if m ≤ 2 then y - 1 else y) < 2 ^ 31 := by
    obtain ⟨hlow, hhigh⟩ := hy
    by_cases h : m ≤ 2
    · rw [if_pos h]
      omega
    · rw [if_neg h]
      omega
  dsimp only [EdgeTts.daysFromCivil]
  generalize (if m ≤ 2 then y - 1 else y) = y at hlow hhigh ⊢
  have hera := tdiv_bounds y (b := 400) (by decide)
  generalize y.tdiv 400 = era at hera ⊢
  obtain ⟨hyoe, hyoe'⟩ : -400 < y - era * 400 ∧ y - era * 400 < 400 := by omega
  generalize y - era * 400 = yoe at hyoe hyoe' ⊢
  obtain ⟨hmp, hmp'⟩ := marchDay_bounds hm
  generalize (if m > 2 then m - 3 else m + 9) = mp at hmp hmp' ⊢
  obtain ⟨⟨hdays, hdays'⟩, ⟨hleaps, hleaps'⟩, hcenturies, hcenturies'⟩ :=
    quotient_bounds hyoe hyoe' hmp hmp'
  omega

/-! ## The checks and the sum -/

/-- The number of a month, or 0. -/
theorem monthNumber_yields {mon : Bytes} {names : List Bytes} {i : Int} (hi : 0 ≤ i)
    (hlength : i + names.length < 2 ^ 31) :
    Yields (monthNumber mon names i)
      (match names.idxOf? mon with
        | some k => i + k + 1
        | none => 0) := by
  induction names generalizing i with
  | nil => exact yields_pure 0
  | cons name names ih =>
      rw [List.length_cons] at hlength
      push_cast at hlength
      have hfits : IntType.int.Fits (i + 1) := fits_int (by omega) (by omega)
      rw [monthNumber, List.idxOf?_cons]
      by_cases hname : mon = name
      · rw [if_pos hname, if_pos (by rw [hname]; exact beq_self_eq_true name)]
        simpa using yields_op hfits
      · rw [if_neg hname, if_neg (by simpa using Ne.symm hname)]
        have hrest := ih (i := i + 1) (by omega) (by omega)
        refine (yields_op hfits).bind ?_
        cases hindex : names.idxOf? mon with
        | none =>
            rw [hindex] at hrest
            exact hrest
        | some k =>
            rw [hindex] at hrest
            have hsum : i + 1 + (k : Int) + 1 = i + ((k + 1 : Nat) : Int) + 1 := by
              push_cast
              ring
            show Yields _ (i + ((k + 1 : Nat) : Int) + 1)
            rw [← hsum]
            exact hrest

theorem timestamp_yields {days hour min sec : Int} (hdays : -2 ^ 46 ≤ days ∧ days < 2 ^ 46)
    (hhour : 0 ≤ hour ∧ hour ≤ 23) (hmin : 0 ≤ min ∧ min ≤ 59) (hsec : 0 ≤ sec ∧ sec ≤ 60) :
    Yields (timestamp days hour min sec) (days * 86400 + hour * 3600 + min * 60 + sec) := by
  unfold timestamp
  iterate 5 refine (yields_op (fits_int64 (by omega) (by omega))).bind ?_
  exact yields_op (fits_int64 (by omega) (by omega))

end HttpDateArithmetic

/-- The fields pass the checks of `parse_http_date`. -/
structure ScannedDate.Accepted (date : ScannedDate) : Prop where
  mon : date.mon ∈ httpMonths
  day : 1 ≤ date.day.toInt ∧ date.day.toInt ≤ 31
  hour : 0 ≤ date.hour.toInt ∧ date.hour.toInt ≤ 23
  min : 0 ≤ date.min.toInt ∧ date.min.toInt ≤ 59
  sec : 0 ≤ date.sec.toInt ∧ date.sec.toInt ≤ 60

/-- The year before the year of the date is needed, and there is none. -/
def ScannedDate.Underflows (date : ScannedDate) : Prop :=
  date.year.toInt = -2 ^ 31 ∧ date.mon ∈ httpMonths.take 2

/-- The value of the fields. -/
def ScannedDate.value (date : ScannedDate) : Option Int := do
  let month ← httpMonths.idxOf? date.mon
  if date.day.toInt < 1 ∨ date.day.toInt > 31 then none
  else if date.hour.toInt < 0 ∨ date.hour.toInt > 23 then none
  else if date.min.toInt < 0 ∨ date.min.toInt > 59 then none
  else if date.sec.toInt < 0 ∨ date.sec.toInt > 60 then none
  else some (daysFromCivil date.year.toInt (month + 1) date.day.toInt * 86400 +
    date.hour.toInt * 3600 + date.min.toInt * 60 + date.sec.toInt)

namespace HttpDateArithmetic

theorem fits_toInt (n : Int32) : IntType.int.Fits n.toInt := ⟨n.le_toInt, n.toInt_lt⟩

/-- The month of an index. -/
theorem month_of_index {mon : Bytes} {k : Nat} (h : httpMonths.idxOf? mon = some k) :
    k < 12 ∧ mon ∈ httpMonths ∧ (k < 2 ↔ mon ∈ httpMonths.take 2) := by
  obtain ⟨hk, hmon, -⟩ := List.idxOf?_eq_some_iff.mp h
  have hfirst : ∀ k < 12, k < 2 ↔ httpMonths.getD k [] ∈ httpMonths.take 2 := by decide +kernel
  rw [← hmon]
  refine ⟨hk, List.getElem_mem hk, ?_⟩
  rw [List.getElem_eq_getD []]
  exact hfirst k hk

/-- **The fields of a date** give its value without overflow, but for the one exception. -/
theorem timestampOf_yields {date : ScannedDate} (h : ¬ (date.Accepted ∧ date.Underflows)) :
    Yields (timestampOf date) date.value := by
  have hmonth : Yields (monthNumber date.mon httpMonths 0) _ :=
    monthNumber_yields (by decide) (by decide)
  unfold timestampOf ScannedDate.value
  refine hmonth.bind ?_
  cases hindex : httpMonths.idxOf? date.mon with
  | none => exact yields_pure none
  | some k =>
      obtain ⟨hk, hmem, hfirst⟩ := month_of_index hindex
      simp only [Option.bind_eq_bind, Option.bind_some, Int.zero_add]
      rw [if_neg (by omega)]
      by_cases hday : date.day.toInt < 1 ∨ date.day.toInt > 31
      · rw [if_pos hday, if_pos hday]
        exact yields_pure none
      by_cases hhour : date.hour.toInt < 0 ∨ date.hour.toInt > 23
      · rw [if_neg hday, if_neg hday, if_pos hhour, if_pos hhour]
        exact yields_pure none
      by_cases hmin : date.min.toInt < 0 ∨ date.min.toInt > 59
      · rw [if_neg hday, if_neg hday, if_neg hhour, if_neg hhour, if_pos hmin, if_pos hmin]
        exact yields_pure none
      by_cases hsec : date.sec.toInt < 0 ∨ date.sec.toInt > 60
      · rw [if_neg hday, if_neg hday, if_neg hhour, if_neg hhour, if_neg hmin, if_neg hmin,
          if_pos hsec, if_pos hsec]
        exact yields_pure none
      rw [if_neg hday, if_neg hday, if_neg hhour, if_neg hhour, if_neg hmin, if_neg hmin,
        if_neg hsec, if_neg hsec]
      have haccepted : date.Accepted :=
        ⟨hmem, by omega, by omega, by omega, by omega⟩
      have hm : 1 ≤ (k : Int) + 1 ∧ (k : Int) + 1 ≤ 12 := by omega
      have hbefore : (k : Int) + 1 ≤ 2 → date.year.toInt ≠ -2 ^ 31 := fun hle hyear =>
        h ⟨haccepted, hyear, hfirst.mp (by omega)⟩
      have hdays := daysFromCivil_bounds (fits_toInt date.year) hm haccepted.day
      refine (daysFromCivil_yields (fits_toInt date.year) hbefore hm haccepted.day).bind ?_
      refine (timestamp_yields hdays haccepted.hour haccepted.min haccepted.sec).bind ?_
      exact yields_pure _

/-- In the exception, the first operation after the checks overflows. -/
theorem not_safe_timestampOf {date : ScannedDate} (haccepted : date.Accepted)
    (hunder : date.Underflows) : ¬ Safe (timestampOf date) := by
  intro hsafe
  have hmonth : Yields (monthNumber date.mon httpMonths 0) _ :=
    monthNumber_yields (by decide) (by decide)
  unfold timestampOf at hsafe
  have hrest := hmonth.safe_of_bind hsafe
  obtain ⟨k, hindex⟩ := Option.isSome_iff_exists.mp (List.isSome_idxOf?.mpr haccepted.mon)
  obtain ⟨hk, -, hfirst⟩ := month_of_index hindex
  have hk' := hfirst.mpr hunder.2
  obtain ⟨-, hday, hhour, hmin, hsec⟩ := haccepted
  simp only [hindex, Int.zero_add] at hrest
  rw [if_neg (by omega), if_neg (by omega), if_neg (by omega), if_neg (by omega),
    if_neg (by omega)] at hrest
  unfold daysFromCivil at hrest
  obtain ⟨hlow, -⟩ := hrest.of_bind.of_bind.fits
  rw [if_pos (by omega), hunder.1] at hlow
  omega

theorem parseHttpDate_yields {sscanf : Bytes → Option ScannedDate} {text : Bytes}
    (h : ∀ date, text ≠ [] → sscanf text = some date → ¬ (date.Accepted ∧ date.Underflows)) :
    Yields (parseHttpDate sscanf text)
      (if text.isEmpty then none else (sscanf text).bind ScannedDate.value) := by
  unfold parseHttpDate
  by_cases hempty : text.isEmpty = true
  · rw [if_pos hempty, if_pos hempty]
    exact yields_pure none
  · rw [if_neg hempty, if_neg hempty]
    cases hscan : sscanf text with
    | none => exact yields_pure none
    | some date => exact timestampOf_yields (h date (by simpa using hempty) hscan)

/-! ## The scanner -/

/-- What `sscanf` stores, with the directives as `parse_http_date` reads them. -/
def scanDate (text : Bytes) : Option ScannedDate := do
  let s := text.takeWhile (· != 0)
  let s ← scanNotComma s
  let s ← scanChar 0x2C s
  let (day, s) ← scanInt (skipSpace s)
  let (mon, s) ← scanWord (skipSpace s)
  let (year, s) ← scanInt (skipSpace s)
  let (hour, s) ← scanInt (skipSpace s)
  let s ← scanChar 0x3A s
  let (min, s) ← scanInt s
  let s ← scanChar 0x3A s
  let (sec, s) ← scanInt s
  let (_tz, _) ← scanWord (skipSpace s)
  return ⟨.ofInt day, mon, .ofInt year, .ofInt hour, .ofInt min, .ofInt sec⟩

/-- A `%d` stores an `int`. -/
theorem toInt_of_scanInt {s s' : Bytes} {n : Int} (h : scanInt s = some (n, s')) :
    (Int32.ofInt n).toInt = n := by
  have hstored : ∀ m : Int, (Int32.ofInt (toInt32 m)).toInt = toInt32 m := by
    intro m
    rw [Int32.toInt_ofInt, toInt32]
    exact Int.bmod_bmod
  rw [scanInt] at h
  -- whatever the sign is
  split at h
  all_goals
    obtain ⟨p, -, hp⟩ := Option.map_eq_some_iff.mp h
    obtain ⟨rfl, -⟩ := Prod.mk.inj hp
    exact hstored _

/-- A step that both scanners take. -/
theorem scan_congr {α β γ : Type} {x : Option α} {f : α → Option γ} {g : α → Option β}
    {h : β → Option γ} (hfg : ∀ a, x = some a → f a = (g a).bind h) :
    (x >>= f) = (x >>= g).bind h := by
  cases x with
  | none => rfl
  | some a => exact hfg a rfl

/-- **The value of a date** is that of the fields that are scanned. -/
theorem parseHttpDate_eq_scanDate (text : Bytes) :
    EdgeTts.parseHttpDate text = (scanDate text).bind ScannedDate.value := by
  unfold EdgeTts.parseHttpDate scanDate
  refine scan_congr fun s _ => scan_congr fun s _ => ?_
  refine scan_congr fun ⟨day, s⟩ hday => scan_congr fun ⟨mon, s⟩ _ => ?_
  refine scan_congr fun ⟨year, s⟩ hyear => scan_congr fun ⟨hour, s⟩ hhour => ?_
  refine scan_congr fun s _ => scan_congr fun ⟨min, s⟩ hmin => ?_
  refine scan_congr fun s _ => scan_congr fun ⟨sec, s⟩ hsec => ?_
  refine scan_congr fun ⟨tz, s⟩ _ => ?_
  show _ = ScannedDate.value _
  unfold ScannedDate.value
  rw [toInt_of_scanInt hday, toInt_of_scanInt hyear, toInt_of_scanInt hhour,
    toInt_of_scanInt hmin, toInt_of_scanInt hsec]

/-- **No operation overflows exactly when** the scanner does not store the least year for a date
of January or February that passes the checks. -/
theorem parseHttpDate_safe_iff (sscanf : Bytes → Option ScannedDate) (text : Bytes) :
    Safe (parseHttpDate sscanf text) ↔
      ∀ date, text ≠ [] → sscanf text = some date → ¬ (date.Accepted ∧ date.Underflows) := by
  constructor
  · intro hsafe date htext hscan hexception
    unfold parseHttpDate at hsafe
    rw [if_neg (by simpa using htext), hscan] at hsafe
    exact not_safe_timestampOf hexception.1 hexception.2 hsafe
  · intro h
    exact (parseHttpDate_yields h).safe

/-- A date that can be sent: the year is the least `int`. -/
theorem not_parseHttpDate_safe :
    ¬ Safe (parseHttpDate scanDate (lit "Mon, 01 Jan -2147483648 00:00:00 GMT")) := by
  have hscan : scanDate (lit "Mon, 01 Jan -2147483648 00:00:00 GMT") =
      some ⟨1, lit "Jan", -2147483648, 0, 0, 0⟩ := by decide +kernel
  unfold parseHttpDate
  rw [if_neg (by decide), hscan]
  exact not_safe_timestampOf
    ⟨by decide +kernel, by decide, by decide, by decide, by decide⟩ ⟨by decide, by decide +kernel⟩

end HttpDateArithmetic
end EdgeTts
