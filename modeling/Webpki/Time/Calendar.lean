/-
# Webpki.Time.Calendar — the calendar arithmetic of `time.rs`, and the days it counts.

The bottom layer translates `time_from_ymdhms_utc` and its helpers as the code computes them:
every `u64` step checked (`Webpki.Outcome`), `unreachable!()` and the `debug_assert!` as panics,
and the cumulative month table with its arms written out. Over it stand the quantities the code is
meant to compute: `epochDaysBeforeYear`, the whole days of the years from 1970 up to a year, each
`337 + days_in_feb y` long, and `daysBeforeMonth`, the days of the months before a month.

Two independently written encodings of the Gregorian rule meet here: the floor-division leap
count of `days_before_year_ad` and the modulo predicate of `days_in_feb`. `daysBeforeYearAd_succ`
shows that they agree for every year whose day count stays inside `u64`; past that bound the
`u64` arithmetic overflows (`daysBeforeYearAd_overflow`). `timeFromYmdhmsUtc_eq` then gives the
exact result of the conversion for every input the parser can produce.
-/
import Webpki.Outcome
import Mathlib.Algebra.BigOperators.Intervals
import Mathlib.Algebra.Order.BigOperators.Group.Finset
import Mathlib.Tactic.IntervalCases

namespace Webpki

/-! ## `Time` -/

/-- The time type (`Time(u64)`): a count of non-leap seconds since the start of 1970, a `u64`.
The bound is a field, so a `Time` outside `u64` cannot be built. -/
@[ext]
structure Time where
  secs : Nat
  secs_lt : secs < 2 ^ 64
  deriving DecidableEq, Repr

namespace Time

/-- `Time::from_seconds_since_unix_epoch`. -/
def fromSecondsSinceUnixEpoch (secs : {n : Nat // n < 2 ^ 64}) : Time := ⟨secs.1, secs.2⟩

/-- The derived `PartialOrd` compares the seconds. -/
instance : LT Time := ⟨fun a b => a.secs < b.secs⟩
instance : LE Time := ⟨fun a b => a.secs ≤ b.secs⟩

instance (a b : Time) : Decidable (a < b) := inferInstanceAs (Decidable (a.secs < b.secs))
instance (a b : Time) : Decidable (a ≤ b) := inferInstanceAs (Decidable (a.secs ≤ b.secs))

theorem lt_iff {a b : Time} : a < b ↔ a.secs < b.secs := .rfl
theorem le_iff {a b : Time} : a ≤ b ↔ a.secs ≤ b.secs := .rfl

end Time

/-! ## The code -/

/-- `UNIX_EPOCH_YEAR`. -/
def unixEpochYear : Nat := 1970

/-- `DAYS_BEFORE_UNIX_EPOCH_AD`: all the days up to and including 1969, plus the 477 leap days
since AD began. -/
def daysBeforeUnixEpochAd : Nat := 1969 * 365 + 477

/-- `days_in_feb`. -/
def daysInFeb (year : Nat) : Nat :=
  if year % 4 = 0 ∧ (year % 100 ≠ 0 ∨ year % 400 = 0) then 29 else 28

/-- `days_in_month`; the last arm is `unreachable!()`. -/
def daysInMonth (year month : Nat) : Outcome Nat :=
  match month with
  | 1 | 3 | 5 | 7 | 8 | 10 | 12 => .ok 31
  | 4 | 6 | 9 | 11 => .ok 30
  | 2 => .ok (daysInFeb year)
  | _ => .panic

/-- `days_before_year_ad`: `((year - 1) * 365) + ((year - 1) / 4) - ((year - 1) / 100) +
((year - 1) / 400)`, left to right. -/
def daysBeforeYearAd (year : Nat) : Outcome Nat := do
  let y ← checkedSub year 1
  checkedAdd (← checkedSub (← checkedAdd (← checkedMul y 365) (y / 4)) (y / 100)) (y / 400)

/-- `days_before_year_since_unix_epoch`. -/
def daysBeforeYearSinceUnixEpoch (year : Nat) : Outcome Nat :=
  if year < unixEpochYear then .err .badDerTime
  else do
    let daysBeforeYearAd ← daysBeforeYearAd year
    debugAssert (daysBeforeYearAd ≥ daysBeforeUnixEpochAd)
    checkedSub daysBeforeYearAd daysBeforeUnixEpochAd

/-- `a₀ + a₁ + ⋯ + aₙ` on `u64`, added left to right. -/
def checkedSum : List Nat → Outcome Nat
  | [] => .ok 0
  | a :: as => as.foldlM checkedAdd a

/-- The `match month` of `time_from_ymdhms_utc`: the days of the year before `month`, from the
constants `JAN = 31`, `MAR = 31`, `APR = 30`, `MAY = 31`, `JUN = 30`, `JUL = 31`, `AUG = 31`,
`SEP = 30`, `OCT = 31`, `NOV = 30` and `feb = days_in_feb(year)`; the last arm is
`unreachable!()`. -/
def daysBeforeMonthInYear (feb month : Nat) : Outcome Nat :=
  match month with
  | 1 => .ok 0
  | 2 => .ok 31
  | 3 => checkedSum [31, feb]
  | 4 => checkedSum [31, feb, 31]
  | 5 => checkedSum [31, feb, 31, 30]
  | 6 => checkedSum [31, feb, 31, 30, 31]
  | 7 => checkedSum [31, feb, 31, 30, 31, 30]
  | 8 => checkedSum [31, feb, 31, 30, 31, 30, 31]
  | 9 => checkedSum [31, feb, 31, 30, 31, 30, 31, 31]
  | 10 => checkedSum [31, feb, 31, 30, 31, 30, 31, 31, 30]
  | 11 => checkedSum [31, feb, 31, 30, 31, 30, 31, 31, 30, 31]
  | 12 => checkedSum [31, feb, 31, 30, 31, 30, 31, 31, 30, 31, 30]
  | _ => .panic

/-- `time_from_ymdhms_utc`. -/
def timeFromYmdhmsUtc (year month dayOfMonth hours minutes seconds : Nat) : Outcome Time := do
  let daysBeforeYearSinceUnixEpoch ← daysBeforeYearSinceUnixEpoch year
  let feb := daysInFeb year
  let daysBeforeMonthInYear ← daysBeforeMonthInYear feb month
  let daysBefore ← checkedSub
    (← checkedAdd (← checkedAdd daysBeforeYearSinceUnixEpoch daysBeforeMonthInYear) dayOfMonth) 1
  let secondsSinceUnixEpoch ← checkedAddU64
    (← checkedAdd
      (← checkedAdd (← checkedMul (← checkedMul (← checkedMul daysBefore 24) 60) 60)
        (← checkedMul (← checkedMul hours 60) 60))
      (← checkedMul minutes 60))
    seconds
  pure (Time.fromSecondsSinceUnixEpoch secondsSinceUnixEpoch)

/-! ## The days the code counts -/

/-- The whole days of the years from 1970 up to `year`: a year `y` has `337 + days_in_feb y`. -/
def epochDaysBeforeYear (year : Nat) : Nat :=
  ∑ y ∈ Finset.Ico unixEpochYear year, (337 + daysInFeb y)

/-- The days of `year` before the first of `month`: the lengths `days_in_month` gives. -/
def daysBeforeMonth (year month : Nat) : Nat :=
  ∑ m ∈ Finset.Ico 1 month, (daysInMonth year m).getD 0

/-- The closed form `days_before_year_ad` evaluates when nothing overflows. -/
def daysBeforeYearAdValue (year : Nat) : Nat :=
  (year - 1) * 365 + (year - 1) / 4 - (year - 1) / 100 + (year - 1) / 400

/-! ## Small facts, one per function -/

theorem daysInFeb_eq (year : Nat) : daysInFeb year = 28 ∨ daysInFeb year = 29 := by
  unfold daysInFeb; split_ifs <;> simp

theorem daysInMonth_ok (year : Nat) {month : Nat} (h1 : 1 ≤ month) (h12 : month ≤ 12) :
    daysInMonth year month = .ok ((daysInMonth year month).getD 0) := by
  interval_cases month <;> rfl

theorem daysInMonth_getD_le (year month : Nat) : (daysInMonth year month).getD 0 ≤ 31 := by
  rcases daysInFeb_eq year with h | h <;> unfold daysInMonth <;> split <;> simp [Outcome.getD, h]

theorem daysInMonth_getD_ge (year : Nat) {month : Nat} (h1 : 1 ≤ month) (h12 : month ≤ 12) :
    28 ≤ (daysInMonth year month).getD 0 := by
  rcases daysInFeb_eq year with h | h <;> interval_cases month <;> simp [daysInMonth, h]

theorem daysBeforeYearAd_eq {year : Nat} (h1 : 1 ≤ year)
    (hb : (year - 1) * 365 + (year - 1) / 4 < 2 ^ 64) :
    daysBeforeYearAd year = .ok (daysBeforeYearAdValue year) := by
  have h100 : (year - 1) / 100 ≤ (year - 1) / 4 := Nat.div_le_div_left (by norm_num) (by norm_num)
  have h400 : (year - 1) / 400 ≤ (year - 1) / 100 := Nat.div_le_div_left (by norm_num) (by norm_num)
  simp (disch := omega) only [daysBeforeYearAd, checkedSub_of_le, checkedMul_of_lt,
    checkedAdd_of_lt, Outcome.ok_bind, daysBeforeYearAdValue]

theorem daysBeforeYearSinceUnixEpoch_of_lt {year : Nat} (h : year < unixEpochYear) :
    daysBeforeYearSinceUnixEpoch year = .err .badDerTime :=
  if_pos h

theorem daysBeforeMonth_succ (year month : Nat) :
    daysBeforeMonth year (month + 1) = daysBeforeMonth year month + (daysInMonth year month).getD 0 := by
  rcases Nat.eq_zero_or_pos month with rfl | h
  · rfl
  · exact Finset.sum_Ico_succ_top h _

/-- The days before a month depend on the year only through the length of February. -/
theorem daysBeforeMonth_congr {y y' : Nat} (h : daysInFeb y = daysInFeb y') (m : Nat) :
    daysBeforeMonth y m = daysBeforeMonth y' m :=
  Finset.sum_congr rfl fun m _ => by unfold daysInMonth; split <;> simp [h]

/-- **The hard-coded cumulative table is the sum of the month lengths.** Checked on a common
year (2001) and a leap year (2000), which is all the table can see of a year. -/
theorem daysBeforeMonthInYear_eq (year : Nat) {month : Nat} (h1 : 1 ≤ month) (h12 : month ≤ 12) :
    daysBeforeMonthInYear (daysInFeb year) month = .ok (daysBeforeMonth year month) := by
  rcases daysInFeb_eq year with h | h
  · rw [h, daysBeforeMonth_congr (h.trans (by decide : 28 = daysInFeb 2001))]
    interval_cases month <;> decide
  · rw [h, daysBeforeMonth_congr (h.trans (by decide : 29 = daysInFeb 2000))]
    interval_cases month <;> decide

/-! ## The two leap rules agree -/

/-- **Floor-division leap count = modulo leap predicate, one year at a time.** -/
theorem daysBeforeYearAdValue_succ {y : Nat} (h : 1 ≤ y) :
    daysBeforeYearAdValue (y + 1) = daysBeforeYearAdValue y + 337 + daysInFeb y := by
  obtain ⟨n, rfl⟩ : ∃ n, y = n + 1 := ⟨y - 1, by omega⟩
  have : n / 100 ≤ n / 4 := Nat.div_le_div_left (by norm_num) (by norm_num)
  simp only [daysBeforeYearAdValue, Nat.add_sub_cancel, Nat.succ_div, daysInFeb, ne_eq,
    ← Nat.dvd_iff_mod_eq_zero]
  -- the leap days before `n` enter only as the three floor quotients, which the step keeps
  generalize n / 4 = a, n / 100 = b, n / 400 = c at *
  split_ifs <;> omega

theorem daysBeforeYearAdValue_eq_epoch {y : Nat} (h : unixEpochYear ≤ y) :
    daysBeforeYearAdValue y = daysBeforeUnixEpochAd + epochDaysBeforeYear y := by
  induction y, h using Nat.le_induction with
  | base => rfl
  | succ y hy ih =>
    rw [daysBeforeYearAdValue_succ (le_trans (by decide) hy), ih]
    simp only [epochDaysBeforeYear, Finset.sum_Ico_succ_top hy]
    omega

theorem daysBeforeYearSinceUnixEpoch_eq {year : Nat} (h : unixEpochYear ≤ year)
    (hb : (year - 1) * 365 + (year - 1) / 4 < 2 ^ 64) :
    daysBeforeYearSinceUnixEpoch year = .ok (epochDaysBeforeYear year) := by
  have hv := daysBeforeYearAdValue_eq_epoch h
  have h1 : 1 ≤ year := le_trans (by decide) h
  unfold daysBeforeYearSinceUnixEpoch
  rw [if_neg (Nat.not_lt.mpr h), daysBeforeYearAd_eq h1 hb, Outcome.ok_bind,
    debugAssert_of (by omega), Outcome.ok_bind, checkedSub_of_le (by omega), hv,
    Nat.add_sub_cancel_left]

/-- **`days_before_year_ad` steps by the length of each year**, for every year whose successor's
day count fits in `u64`, and from 1970 on it counts the whole years since the epoch. -/
theorem daysBeforeYearAd_succ :
    (∀ y, 1 ≤ y → y * 365 + y / 4 < 2 ^ 64 →
      ∃ d, daysBeforeYearAd y = .ok d ∧ daysBeforeYearAd (y + 1) = .ok (d + 337 + daysInFeb y)) ∧
    (∀ y, unixEpochYear ≤ y → (y - 1) * 365 + (y - 1) / 4 < 2 ^ 64 →
      ∃ d, daysBeforeYearAd y = .ok d ∧ daysBeforeUnixEpochAd ≤ d ∧
        daysBeforeYearSinceUnixEpoch y = .ok (epochDaysBeforeYear y)) := by
  refine ⟨fun y hy hb => ?_, fun y hy hb => ?_⟩
  · have hb' : (y - 1) * 365 + (y - 1) / 4 < 2 ^ 64 := by
      have : (y - 1) / 4 ≤ y / 4 := Nat.div_le_div_right (Nat.sub_le y 1)
      omega
    refine ⟨_, daysBeforeYearAd_eq hy hb', ?_⟩
    rw [daysBeforeYearAd_eq (by omega) (by simpa using hb), daysBeforeYearAdValue_succ hy]
  · refine ⟨_, daysBeforeYearAd_eq (le_trans (by decide) hy) hb, ?_,
      daysBeforeYearSinceUnixEpoch_eq hy hb⟩
    rw [daysBeforeYearAdValue_eq_epoch hy]
    exact Nat.le_add_right _ _

/-- Past `u64` the year arithmetic overflows: `days_before_year_ad` returns for the year
50504432782230121 and panics for the next one. -/
theorem daysBeforeYearAd_overflow :
    daysBeforeYearAd 50504432782230121 = .ok 18446365290463684604 ∧
      daysBeforeYearAd (50504432782230121 + 1) = .panic := by
  decide

/-! ## What `time_from_ymdhms_utc` returns -/

theorem timeFromYmdhmsUtc_of_lt {year month day hours minutes seconds : Nat}
    (h : year < unixEpochYear) :
    timeFromYmdhmsUtc year month day hours minutes seconds = .err .badDerTime := by
  rw [timeFromYmdhmsUtc, daysBeforeYearSinceUnixEpoch_of_lt h, Outcome.err_bind]

/-- Only years from 1970 convert. -/
theorem unixEpochYear_le_of_timeFromYmdhmsUtc {year month day hours minutes seconds : Nat}
    {t : Time} (h : timeFromYmdhmsUtc year month day hours minutes seconds = .ok t) :
    unixEpochYear ≤ year := by
  by_contra hy
  rw [timeFromYmdhmsUtc_of_lt (Nat.lt_of_not_le hy)] at h
  cases h

theorem epochDaysBeforeYear_le (year : Nat) : epochDaysBeforeYear year ≤ 366 * year := by
  unfold epochDaysBeforeYear
  calc ∑ y ∈ Finset.Ico unixEpochYear year, (337 + daysInFeb y)
      ≤ (Finset.Ico unixEpochYear year).card • 366 :=
        Finset.sum_le_card_nsmul _ _ _ fun y _ => by rcases daysInFeb_eq y with h | h <;> omega
    _ ≤ 366 * year := by rw [Nat.card_Ico, smul_eq_mul]; omega

theorem daysBeforeMonth_le (year month : Nat) : daysBeforeMonth year month ≤ 31 * month := by
  unfold daysBeforeMonth
  calc ∑ m ∈ Finset.Ico 1 month, (daysInMonth year m).getD 0
      ≤ (Finset.Ico 1 month).card • 31 :=
        Finset.sum_le_card_nsmul _ _ _ fun m _ => daysInMonth_getD_le year m
    _ ≤ 31 * month := by rw [Nat.card_Ico, smul_eq_mul]; omega

/-- **The conversion, for every input the parser can produce**: `BadDerTime` before 1970, and
otherwise the seconds of the whole days before the date plus the seconds of the day, with no
`u64` step overflowing. -/
theorem timeFromYmdhmsUtc_eq {year month day hours minutes seconds : Nat} (hy : year ≤ 9999)
    (hm1 : 1 ≤ month) (hm12 : month ≤ 12) (hd1 : 1 ≤ day) (hd : day ≤ 31) (hh : hours ≤ 23)
    (hmi : minutes ≤ 59) (hs : seconds ≤ 59) :
    Time.secs <$> timeFromYmdhmsUtc year month day hours minutes seconds =
      if year < unixEpochYear then .err .badDerTime
      else .ok ((epochDaysBeforeYear year + daysBeforeMonth year month + day - 1) * 24 * 60 * 60 +
        hours * 60 * 60 + minutes * 60 + seconds) := by
  split_ifs with h
  · rw [timeFromYmdhmsUtc_of_lt h]; rfl
  · have hE := epochDaysBeforeYear_le year
    have hM := daysBeforeMonth_le year month
    rw [timeFromYmdhmsUtc, daysBeforeYearSinceUnixEpoch_eq (Nat.not_lt.mp h) (by omega)]
    simp (disch := omega) only [Outcome.ok_bind, daysBeforeMonthInYear_eq year hm1 hm12,
      checkedAdd_of_lt, checkedMul_of_lt, checkedSub_of_le, checkedAddU64_of_lt, Outcome.pure_eq_ok]
    rfl

/-- **`time_from_ymdhms_utc` counts civil seconds since 1970-01-01T00:00:00Z**: for every valid
date up to 9999 it fails with `BadDerTime` exactly before 1970, and otherwise returns the `Time` of
`86400 · (whole days before the date) + 3600 · hour + 60 · minute + second` seconds, where the whole
days are the lengths of the years from 1970, of the months of the year, and of the days of the
month. -/
theorem timeFromYmdhmsUtc_seconds (year month day hours minutes seconds : Nat) (hy : year ≤ 9999)
    (hm1 : 1 ≤ month) (hm12 : month ≤ 12) (hd1 : 1 ≤ day)
    (hd : day ≤ (daysInMonth year month).getD 0) (hh : hours ≤ 23) (hmi : minutes ≤ 59)
    (hs : seconds ≤ 59) :
    Time.secs <$> timeFromYmdhmsUtc year month day hours minutes seconds =
      if year < 1970 then .err .badDerTime
      else .ok (86400 * (epochDaysBeforeYear year + daysBeforeMonth year month + day - 1) +
        3600 * hours + 60 * minutes + seconds) := by
  rw [timeFromYmdhmsUtc_eq hy hm1 hm12 hd1 (hd.trans (daysInMonth_getD_le year month)) hh hmi hs]
  unfold unixEpochYear
  split_ifs
  · rfl
  · congr 1; omega

theorem timeFromYmdhmsUtc_seconds_2100_03_01 :
    (2100 ≤ 9999 ∧ 1 ≤ 3 ∧ 3 ≤ 12 ∧ 1 ≤ 1 ∧ 1 ≤ (daysInMonth 2100 3).getD 0 ∧ 0 ≤ 23 ∧ 0 ≤ 59 ∧
      0 ≤ 59) ∧
    Time.secs <$> timeFromYmdhmsUtc 2100 3 1 0 0 0 =
      if 2100 < 1970 then .err .badDerTime
      else .ok (86400 * (epochDaysBeforeYear 2100 + daysBeforeMonth 2100 3 + 1 - 1) +
        3600 * 0 + 60 * 0 + 0) :=
  ⟨by decide, timeFromYmdhmsUtc_seconds 2100 3 1 0 0 0 (by decide) (by decide) (by decide)
    (by decide) (by decide) (by decide) (by decide) (by decide)⟩

example : timeFromYmdhmsUtc 2016 12 31 23 59 59 = .ok ⟨1483228799, by decide⟩ := by decide

end Webpki
