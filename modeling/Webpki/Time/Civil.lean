/-
# Webpki.Time.Civil — civil times, and `time_from_ymdhms_utc` as an order embedding.

A certificate's validity is checked by comparing `Time`s (`notBefore ≤ now ≤ notAfter`), while the
certificate states it as civil times. This module says what the conversion is FOR: the seconds it
returns order civil times exactly as the calendar does, with no gap and no overlap at any month,
year, leap-day or century boundary.

`CivilTime` is the six-field tuple and `CivilTime.Valid` the field ranges the parser admits.
`CivilTime.unixSeconds` is the civil second count, read off `epochDaysBeforeYear` and
`daysBeforeMonth`; `Before` is the lexicographic order and `succ` the calendar successor. The
mixed-radix engine `tile_lt_iff` is proved once, for any base that grows by a block width, and
used twice: years tiled by their lengths, months by theirs. On top of it
`timeFromYmdhmsUtc_order_embedding` is a genuine `∀` over all pairs of valid civil times from 1970
to 9999.
-/
import Webpki.Time.Calendar

namespace Webpki

/-! ## The mixed-radix engine -/

section Tiling

variable {base width : Nat → Nat} {lo : Nat}

/-- A base that grows by each block's width passes the end of block `x` before block `y > x`. -/
theorem tile_le_of_lt (hstep : ∀ x, lo ≤ x → base (x + 1) = base x + width x) {x y : Nat}
    (hx : lo ≤ x) (hxy : x < y) : base x + width x ≤ base y := by
  induction y, hxy using Nat.le_induction with
  | base => rw [hstep x hx]
  | succ y hxy ih => rw [hstep y (by omega)]; omega

/-- **Offsets inside consecutive blocks compare lexicographically.** -/
theorem tile_lt_iff (hstep : ∀ x, lo ≤ x → base (x + 1) = base x + width x) {x₁ x₂ r₁ r₂ : Nat}
    (hx₁ : lo ≤ x₁) (hx₂ : lo ≤ x₂) (h₁ : r₁ < width x₁) (h₂ : r₂ < width x₂) :
    base x₁ + r₁ < base x₂ + r₂ ↔ x₁ < x₂ ∨ x₁ = x₂ ∧ r₁ < r₂ := by
  rcases Nat.lt_trichotomy x₁ x₂ with h | rfl | h
  · have := tile_le_of_lt hstep hx₁ h; omega
  · omega
  · have := tile_le_of_lt hstep hx₂ h; omega

theorem tile_eq_iff (hstep : ∀ x, lo ≤ x → base (x + 1) = base x + width x) {x₁ x₂ r₁ r₂ : Nat}
    (hx₁ : lo ≤ x₁) (hx₂ : lo ≤ x₂) (h₁ : r₁ < width x₁) (h₂ : r₂ < width x₂) :
    base x₁ + r₁ = base x₂ + r₂ ↔ x₁ = x₂ ∧ r₁ = r₂ := by
  rcases Nat.lt_trichotomy x₁ x₂ with h | rfl | h
  · have := tile_le_of_lt hstep hx₁ h; omega
  · omega
  · have := tile_le_of_lt hstep hx₂ h; omega

end Tiling

/-! ## Years and months as blocks of days -/

theorem epochDaysBeforeYear_succ {y : Nat} (h : unixEpochYear ≤ y) :
    epochDaysBeforeYear (y + 1) = epochDaysBeforeYear y + (337 + daysInFeb y) :=
  Finset.sum_Ico_succ_top h _

/-- The twelve months fill the year. -/
theorem daysBeforeMonth_thirteen (year : Nat) : daysBeforeMonth year 13 = 337 + daysInFeb year := by
  rcases daysInFeb_eq year with h | h
  · rw [h, daysBeforeMonth_congr (h.trans (by decide : 28 = daysInFeb 2001))]; decide
  · rw [h, daysBeforeMonth_congr (h.trans (by decide : 29 = daysInFeb 2000))]; decide

theorem daysBeforeMonth_one (year : Nat) : daysBeforeMonth year 1 = 0 := rfl

theorem daysBeforeMonth_mono (year : Nat) {m m' : Nat} (h : m ≤ m') :
    daysBeforeMonth year m ≤ daysBeforeMonth year m' := by
  induction m', h using Nat.le_induction with
  | base => exact le_rfl
  | succ m' _ ih => rw [daysBeforeMonth_succ]; omega

/-! ## Civil times -/

/-- A civil UTC time `(year, month, day, hour, minute, second)`. -/
@[ext]
structure CivilTime where
  year : Nat
  month : Nat
  day : Nat
  hour : Nat
  minute : Nat
  second : Nat
  deriving DecidableEq, Repr

namespace CivilTime

/-- The field ranges `Time::from_der` admits: month `1..=12`, day `1..=days_in_month`, hour at
most 23, minute and second at most 59. -/
structure Valid (c : CivilTime) : Prop where
  month_pos : 1 ≤ c.month
  month_le : c.month ≤ 12
  day_pos : 1 ≤ c.day
  day_le : c.day ≤ (daysInMonth c.year c.month).getD 0
  hour_le : c.hour ≤ 23
  minute_le : c.minute ≤ 59
  second_le : c.second ≤ 59

instance (c : CivilTime) : Decidable c.Valid :=
  decidable_of_iff (1 ≤ c.month ∧ c.month ≤ 12 ∧ 1 ≤ c.day ∧
      c.day ≤ (daysInMonth c.year c.month).getD 0 ∧ c.hour ≤ 23 ∧ c.minute ≤ 59 ∧ c.second ≤ 59)
    ⟨fun ⟨a, b, d, e, f, g, h⟩ => ⟨a, b, d, e, f, g, h⟩,
      fun ⟨a, b, d, e, f, g, h⟩ => ⟨a, b, d, e, f, g, h⟩⟩

/-- Lexicographic order on `(year, month, day, hour, minute, second)`. -/
def Before (c d : CivilTime) : Prop :=
  c.year < d.year ∨ c.year = d.year ∧ (c.month < d.month ∨ c.month = d.month ∧
    (c.day < d.day ∨ c.day = d.day ∧ (c.hour < d.hour ∨ c.hour = d.hour ∧
      (c.minute < d.minute ∨ c.minute = d.minute ∧ c.second < d.second))))

instance (c d : CivilTime) : Decidable (c.Before d) := inferInstanceAs (Decidable (c.year < d.year ∨ _))

/-- The calendar successor: seconds roll over after 59, minutes after 59, hours after 23, days
after `days_in_month`, months after 12. -/
def succ (c : CivilTime) : CivilTime :=
  if c.second < 59 then { c with second := c.second + 1 }
  else if c.minute < 59 then { c with minute := c.minute + 1, second := 0 }
  else if c.hour < 23 then { c with hour := c.hour + 1, minute := 0, second := 0 }
  else if c.day < (daysInMonth c.year c.month).getD 0 then
    { c with day := c.day + 1, hour := 0, minute := 0, second := 0 }
  else if c.month < 12 then { c with month := c.month + 1, day := 1, hour := 0, minute := 0, second := 0 }
  else ⟨c.year + 1, 1, 1, 0, 0, 0⟩

/-- Whole days from 1970-01-01 to the date of `c`. -/
def dayIndex (c : CivilTime) : Nat :=
  epochDaysBeforeYear c.year + daysBeforeMonth c.year c.month + c.day - 1

/-- Seconds since midnight. -/
def secondOfDay (c : CivilTime) : Nat := 3600 * c.hour + 60 * c.minute + c.second

/-- Civil seconds from 1970-01-01T00:00:00Z to `c`. -/
def unixSeconds (c : CivilTime) : Nat := 86400 * c.dayIndex + c.secondOfDay

/-! ## Civil seconds order civil times -/

variable {c c₁ c₂ : CivilTime}

theorem secondOfDay_lt (h : c.Valid) : c.secondOfDay < 86400 := by
  have := h.hour_le; have := h.minute_le; have := h.second_le
  unfold secondOfDay; omega

theorem Valid.day_sub_one_lt (h : c.Valid) : c.day - 1 < (daysInMonth c.year c.month).getD 0 := by
  have := h.day_pos; have := h.day_le; omega

/-- The day of the year, counted from 0, lies inside the year. -/
theorem dayOfYear_lt (h : c.Valid) :
    daysBeforeMonth c.year c.month + (c.day - 1) < 337 + daysInFeb c.year := by
  have hs := daysBeforeMonth_succ c.year c.month
  have hm := daysBeforeMonth_mono c.year (show c.month + 1 ≤ 13 by have := h.month_le; omega)
  rw [daysBeforeMonth_thirteen] at hm
  have := h.day_sub_one_lt; omega

theorem dayIndex_eq (h : c.Valid) :
    c.dayIndex = epochDaysBeforeYear c.year + (daysBeforeMonth c.year c.month + (c.day - 1)) := by
  have := h.day_pos; unfold dayIndex; omega

theorem dayIndex_lt_iff (h₁ : c₁.Valid) (h₂ : c₂.Valid) (hy₁ : unixEpochYear ≤ c₁.year)
    (hy₂ : unixEpochYear ≤ c₂.year) :
    c₁.dayIndex < c₂.dayIndex ↔ c₁.year < c₂.year ∨
      c₁.year = c₂.year ∧ (c₁.month < c₂.month ∨ c₁.month = c₂.month ∧ c₁.day < c₂.day) := by
  rw [dayIndex_eq h₁, dayIndex_eq h₂, tile_lt_iff (fun _ hy => epochDaysBeforeYear_succ hy) hy₁
    hy₂ (dayOfYear_lt h₁) (dayOfYear_lt h₂)]
  refine or_congr_right (and_congr_right fun hy => ?_)
  rw [hy, tile_lt_iff (fun m _ => daysBeforeMonth_succ c₂.year m) (Nat.zero_le _) (Nat.zero_le _)
    (hy ▸ h₁.day_sub_one_lt) h₂.day_sub_one_lt]
  have := h₁.day_pos; have := h₂.day_pos; omega

theorem dayIndex_eq_iff (h₁ : c₁.Valid) (h₂ : c₂.Valid) (hy₁ : unixEpochYear ≤ c₁.year)
    (hy₂ : unixEpochYear ≤ c₂.year) :
    c₁.dayIndex = c₂.dayIndex ↔ c₁.year = c₂.year ∧ c₁.month = c₂.month ∧ c₁.day = c₂.day := by
  rw [dayIndex_eq h₁, dayIndex_eq h₂, tile_eq_iff (fun _ hy => epochDaysBeforeYear_succ hy) hy₁
    hy₂ (dayOfYear_lt h₁) (dayOfYear_lt h₂)]
  refine and_congr_right fun hy => ?_
  rw [hy, tile_eq_iff (fun m _ => daysBeforeMonth_succ c₂.year m) (Nat.zero_le _) (Nat.zero_le _)
    (hy ▸ h₁.day_sub_one_lt) h₂.day_sub_one_lt]
  have := h₁.day_pos; have := h₂.day_pos; omega

/-- **Civil seconds are strictly monotone in the lexicographic order.** -/
theorem unixSeconds_lt_iff (h₁ : c₁.Valid) (h₂ : c₂.Valid) (hy₁ : unixEpochYear ≤ c₁.year)
    (hy₂ : unixEpochYear ≤ c₂.year) : c₁.unixSeconds < c₂.unixSeconds ↔ c₁.Before c₂ := by
  -- days tile the seconds in blocks of 86400, so compare the days first, then the time of day
  have hday : ∀ x, 0 ≤ x → 86400 * (x + 1) = 86400 * x + 86400 := fun x _ => Nat.mul_succ _ _
  unfold unixSeconds
  rw [@tile_lt_iff (86400 * ·) (fun _ => 86400) 0 hday _ _ _ _ (Nat.zero_le _) (Nat.zero_le _)
    (secondOfDay_lt h₁) (secondOfDay_lt h₂), dayIndex_lt_iff h₁ h₂ hy₁ hy₂,
    dayIndex_eq_iff h₁ h₂ hy₁ hy₂]
  have := h₁.minute_le; have := h₁.second_le; have := h₂.minute_le; have := h₂.second_le
  unfold secondOfDay Before
  omega

/-- **Civil seconds are injective**: no two valid civil times share a second. -/
theorem unixSeconds_inj (h₁ : c₁.Valid) (h₂ : c₂.Valid) (hy₁ : unixEpochYear ≤ c₁.year)
    (hy₂ : unixEpochYear ≤ c₂.year) : c₁.unixSeconds = c₂.unixSeconds ↔ c₁ = c₂ := by
  refine ⟨fun h => ?_, fun h => h ▸ rfl⟩
  have hs₁ := secondOfDay_lt h₁; have hs₂ := secondOfDay_lt h₂
  have hd : c₁.dayIndex = c₂.dayIndex := by unfold unixSeconds at h; omega
  obtain ⟨hy, hm, hday⟩ := (dayIndex_eq_iff h₁ h₂ hy₁ hy₂).mp hd
  have := h₁.minute_le; have := h₁.second_le; have := h₂.minute_le; have := h₂.second_le
  unfold unixSeconds secondOfDay at h
  ext <;> omega

/-! ## The successor is one second later -/

theorem succ_valid (h : c.Valid) : c.succ.Valid := by
  obtain ⟨hm1, hm12, hd1, hd, hh, hmi, hs⟩ := h
  have hnext := @daysInMonth_getD_ge c.year (c.month + 1)
  have hjan : (daysInMonth (c.year + 1) 1).getD 0 = 31 := rfl
  unfold succ
  split_ifs <;> refine ⟨?_, ?_, ?_, ?_, ?_, ?_, ?_⟩ <;> dsimp only <;> omega

theorem year_le_succ (c : CivilTime) : c.year ≤ c.succ.year := by
  unfold succ; split_ifs <;> simp

/-- **The calendar successor is exactly one civil second later**, across every roll-over. -/
theorem unixSeconds_succ (h : c.Valid) (hy : unixEpochYear ≤ c.year) :
    c.succ.unixSeconds = c.unixSeconds + 1 := by
  obtain ⟨hm1, hm12, hd1, hd, hh, hmi, hs⟩ := h
  have hlen := daysBeforeMonth_succ c.year c.month
  unfold succ
  split_ifs with h1 h2 h3 h4 h5 <;> simp only [unixSeconds, dayIndex, secondOfDay]
  · omega
  · omega
  · omega
  · omega
  · rw [hlen]; omega
  · have hm : c.month = 12 := by omega
    have h13 : daysBeforeMonth c.year 13 = daysBeforeMonth c.year 12 + 31 :=
      daysBeforeMonth_succ c.year 12
    have h31 : (daysInMonth c.year 12).getD 0 = 31 := rfl
    have := daysBeforeMonth_thirteen c.year
    rw [hm] at h4 hd ⊢
    rw [epochDaysBeforeYear_succ hy, daysBeforeMonth_one]
    omega

/-- **`time_from_ymdhms_utc` returns the civil seconds** of every valid civil time from 1970 to
9999. -/
theorem timeFromYmdhmsUtc_valid (h : c.Valid) (hy : unixEpochYear ≤ c.year) (hy' : c.year ≤ 9999) :
    Time.secs <$> timeFromYmdhmsUtc c.year c.month c.day c.hour c.minute c.second =
      .ok c.unixSeconds := by
  rw [timeFromYmdhmsUtc_eq hy' h.month_pos h.month_le h.day_pos
    (h.day_le.trans (daysInMonth_getD_le _ _)) h.hour_le h.minute_le h.second_le,
    if_neg (Nat.not_lt.mpr hy)]
  simp only [unixSeconds, dayIndex, secondOfDay]
  congr 1
  omega

/-- The `Time` the conversion returns for a valid civil time from 1970 to 9999. -/
theorem exists_timeFromYmdhmsUtc (h : c.Valid) (hy : unixEpochYear ≤ c.year) (hy' : c.year ≤ 9999) :
    ∃ t : Time, timeFromYmdhmsUtc c.year c.month c.day c.hour c.minute c.second = .ok t ∧
      t.secs = c.unixSeconds :=
  Outcome.map_eq_ok.mp (timeFromYmdhmsUtc_valid h hy hy')

/-- **`time_from_ymdhms_utc` is an order embedding of civil time, with no gaps**: on valid civil
times from 1970 to 9999 it returns, `Time`s compare as the civil times do lexicographically, and
two results are one second apart exactly when the second civil time is the calendar successor of
the first. -/
theorem timeFromYmdhmsUtc_order_embedding (c₁ c₂ : CivilTime) (h₁ : c₁.Valid) (h₂ : c₂.Valid)
    (hy₁ : 1970 ≤ c₁.year ∧ c₁.year ≤ 9999) (hy₂ : 1970 ≤ c₂.year ∧ c₂.year ≤ 9999) :
    ∃ t₁ t₂, timeFromYmdhmsUtc c₁.year c₁.month c₁.day c₁.hour c₁.minute c₁.second = .ok t₁ ∧
      timeFromYmdhmsUtc c₂.year c₂.month c₂.day c₂.hour c₂.minute c₂.second = .ok t₂ ∧
      (t₁ < t₂ ↔ c₁.Before c₂) ∧ (t₂.secs = t₁.secs + 1 ↔ c₂ = c₁.succ) := by
  obtain ⟨t₁, ht₁, hs₁⟩ := exists_timeFromYmdhmsUtc h₁ hy₁.1 hy₁.2
  obtain ⟨t₂, ht₂, hs₂⟩ := exists_timeFromYmdhmsUtc h₂ hy₂.1 hy₂.2
  refine ⟨t₁, t₂, ht₁, ht₂, ?_, ?_⟩
  · rw [Time.lt_iff, hs₁, hs₂]
    exact unixSeconds_lt_iff h₁ h₂ hy₁.1 hy₂.1
  · rw [hs₁, hs₂, ← unixSeconds_succ h₁ hy₁.1, unixSeconds_inj h₂ (succ_valid h₁) hy₂.1
      (hy₁.1.trans (year_le_succ c₁))]

theorem timeFromYmdhmsUtc_order_embedding_2100_02_28 :
    (CivilTime.Valid ⟨2100, 2, 28, 23, 59, 59⟩ ∧ CivilTime.Valid ⟨2100, 3, 1, 0, 0, 0⟩ ∧
      (1970 ≤ 2100 ∧ 2100 ≤ 9999) ∧ (1970 ≤ 2100 ∧ 2100 ≤ 9999)) ∧
    ∃ t₁ t₂, timeFromYmdhmsUtc 2100 2 28 23 59 59 = .ok t₁ ∧
      timeFromYmdhmsUtc 2100 3 1 0 0 0 = .ok t₂ ∧
      (t₁ < t₂ ↔ CivilTime.Before ⟨2100, 2, 28, 23, 59, 59⟩ ⟨2100, 3, 1, 0, 0, 0⟩) ∧
      (t₂.secs = t₁.secs + 1 ↔
        (⟨2100, 3, 1, 0, 0, 0⟩ : CivilTime) = CivilTime.succ ⟨2100, 2, 28, 23, 59, 59⟩) :=
  ⟨by decide, timeFromYmdhmsUtc_order_embedding ⟨2100, 2, 28, 23, 59, 59⟩ ⟨2100, 3, 1, 0, 0, 0⟩
    (by decide) (by decide) (by decide) (by decide)⟩

end CivilTime

end Webpki
