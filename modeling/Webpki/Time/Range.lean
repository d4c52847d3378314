/-
# Webpki.Time.Range — what `time_from_ymdhms_utc` and `Time::from_der` can return.

`time_from_ymdhms_utc` is `pub(crate)`; the parser calls it only with fields it has range-checked,
but its arithmetic is checked on every input. Its result on any six integers is given here in full
(`timeFromYmdhmsUtc_on_every_input`): `BadDerTime` before 1970; a panic when the month is out of
range (the `unreachable!()` arm) or the count of days underflows, which only day 0 of January 1970
does; otherwise the civil seconds when they fit in `u64`, and a panic when they do not. No
intermediate step overflows while the total fits.

The calendar successor is a clock. Stepped `n` times from 1970-01-01T00:00:00 it reaches the civil
time of second `n` (`CivilTime.succ_iterate`), so the conversion takes the valid civil times up to
9999 onto exactly the seconds before 10000-01-01, and `Time::from_der` returns exactly the seconds
before 2050 from UTCTime and before 10000 from GeneralizedTime. Last, the order of parsed times is
the byte order of GeneralizedTime contents, and not that of UTCTime contents, whose two-digit year
wraps at the pivot.
-/
import Webpki.Time.Der
import Mathlib.Data.List.Lex

namespace Webpki

/-! ## `time_from_ymdhms_utc` on every input -/

theorem daysBeforeYearAd_of_overflow {year : Nat} (h1 : 1 ≤ year)
    (hb : ¬(year - 1) * 365 + (year - 1) / 4 < 2 ^ 64) : daysBeforeYearAd year = .panic := by
  simp only [daysBeforeYearAd, checkedSub_bind, checkedMul_bind, checkedAdd_bind]
  split_ifs <;> rfl

theorem daysBeforeYearSinceUnixEpoch_of_overflow {year : Nat} (hy : unixEpochYear ≤ year)
    (hb : ¬(year - 1) * 365 + (year - 1) / 4 < 2 ^ 64) :
    daysBeforeYearSinceUnixEpoch year = .panic := by
  rw [daysBeforeYearSinceUnixEpoch, if_neg (Nat.not_lt.mpr hy),
    daysBeforeYearAd_of_overflow (le_trans (by decide) hy) hb, Outcome.panic_bind]

/-- The `unreachable!()` arm of the month table. -/
theorem daysBeforeMonthInYear_of_not_mem {feb month : Nat} (h : month < 1 ∨ 12 < month) :
    daysBeforeMonthInYear feb month = .panic := by
  unfold daysBeforeMonthInYear; split <;> first | rfl | omega

theorem epochDaysBeforeYear_ge (year : Nat) :
    365 * (year - unixEpochYear) ≤ epochDaysBeforeYear year := by
  unfold epochDaysBeforeYear
  calc 365 * (year - unixEpochYear) = (Finset.Ico unixEpochYear year).card • 365 := by
        rw [Nat.card_Ico, smul_eq_mul, Nat.mul_comm]
    _ ≤ ∑ y ∈ Finset.Ico unixEpochYear year, (337 + daysInFeb y) :=
        Finset.card_nsmul_le_sum _ _ _ fun y _ => by rcases daysInFeb_eq y with h | h <;> omega

theorem daysBeforeMonth_two (year : Nat) : daysBeforeMonth year 2 = 31 := rfl

/-- **`time_from_ymdhms_utc` on every input.** Before 1970 it fails with `BadDerTime`. From 1970
it panics when the month is outside `1..=12` and when `days_before - 1` underflows, which happens
only for day 0 of January 1970 (a day 0 of any later month counts as the last day of the month
before). Otherwise it returns the civil seconds when they fit in `u64`, and panics when they do
not: no step overflows before the total does. -/
theorem timeFromYmdhmsUtc_on_every_input (year month day hours minutes seconds : Nat) :
    timeFromYmdhmsUtc year month day hours minutes seconds =
      if year < 1970 then .err .badDerTime
      else if month < 1 ∨ 12 < month ∨ (year = 1970 ∧ month = 1 ∧ day = 0) then .panic
      else if h : 86400 * (epochDaysBeforeYear year + daysBeforeMonth year month + day - 1) +
          3600 * hours + 60 * minutes + seconds < 2 ^ 64 then
        .ok ⟨86400 * (epochDaysBeforeYear year + daysBeforeMonth year month + day - 1) +
          3600 * hours + 60 * minutes + seconds, h⟩
      else .panic := by
  rcases Nat.lt_or_ge year 1970 with hy | hy
  · rw [timeFromYmdhmsUtc_of_lt hy, if_pos hy]
  rw [if_neg (Nat.not_lt.mpr hy)]
  have hE : 365 * (year - 1970) ≤ epochDaysBeforeYear year := epochDaysBeforeYear_ge year
  by_cases hb : (year - 1) * 365 + (year - 1) / 4 < 2 ^ 64
  swap
  · -- the count of whole years overflows first, and then so does the total
    rw [timeFromYmdhmsUtc, daysBeforeYearSinceUnixEpoch_of_overflow hy hb, Outcome.panic_bind]
    split_ifs <;> first | rfl | omega
  rw [timeFromYmdhmsUtc, daysBeforeYearSinceUnixEpoch_eq hy hb, Outcome.ok_bind]
  dsimp only
  by_cases hm : month < 1 ∨ 12 < month
  · rw [daysBeforeMonthInYear_of_not_mem hm, Outcome.panic_bind, if_pos (by omega)]
  rw [daysBeforeMonthInYear_eq year (by omega) (by omega), Outcome.ok_bind]
  -- the only way to count no day at all is 1970, January, day 0
  have hE0 : year = 1970 → epochDaysBeforeYear year = 0 := by rintro rfl; rfl
  have hM1 : month = 1 → daysBeforeMonth year month = 0 := by rintro rfl; rfl
  have hM2 : 2 ≤ month → 31 ≤ daysBeforeMonth year month := fun h =>
    daysBeforeMonth_two year ▸ daysBeforeMonth_mono year h
  simp only [checkedAdd_bind, checkedSub_bind, checkedMul_bind, checkedAddU64_bind,
    Outcome.pure_eq_ok, Time.fromSecondsSinceUnixEpoch]
  -- every step is decided once we know whether there is a day to count and whether the total
  -- fits; past `u64` the last step panics and the steps before it no longer matter
  by_cases h0 : year = 1970 ∧ month = 1 ∧ day = 0 <;>
  by_cases hS : 86400 * (epochDaysBeforeYear year + daysBeforeMonth year month + day - 1) +
      3600 * hours + 60 * minutes + seconds < 2 ^ 64 <;>
  simp (disch := omega) only [if_pos, if_neg, dif_pos, dif_neg, ite_self, Outcome.ok.injEq,
    Time.mk.injEq]
  -- what is left is the total itself, added up in the code's order
  omega

/-! ## The civil clock -/

namespace CivilTime

variable {c : CivilTime}

/-- **A run of the clock**: stepping a valid civil time from 1970 `n` times keeps it valid and
from 1970, and adds `n` civil seconds. -/
theorem succ_iterate (h : c.Valid) (hy : unixEpochYear ≤ c.year) (n : Nat) :
    (succ^[n] c).Valid ∧ unixEpochYear ≤ (succ^[n] c).year ∧
      (succ^[n] c).unixSeconds = c.unixSeconds + n := by
  induction n with
  | zero => exact ⟨h, hy, rfl⟩
  | succ n ih =>
    obtain ⟨hv, hy', hs⟩ := ih
    rw [Function.iterate_succ_apply']
    exact ⟨succ_valid hv, hy'.trans (year_le_succ _), by rw [unixSeconds_succ hv hy', hs]; rfl⟩

/-- The first second of the year `y`. -/
theorem newYear_valid (y : Nat) : CivilTime.Valid ⟨y, 1, 1, 0, 0, 0⟩ :=
  ⟨le_rfl, (by decide : 1 ≤ 12), le_rfl, (by decide : 1 ≤ 31), Nat.zero_le _, Nat.zero_le _,
    Nat.zero_le _⟩

/-- Every count of seconds is reached by the clock from 1970-01-01T00:00:00. -/
theorem exists_unixSeconds_eq (s : Nat) :
    ∃ c : CivilTime, c.Valid ∧ unixEpochYear ≤ c.year ∧ c.unixSeconds = s := by
  obtain ⟨hv, hy, hs⟩ := succ_iterate (newYear_valid 1970) le_rfl s
  exact ⟨_, hv, hy, hs.trans (Nat.zero_add s)⟩

/-- A valid civil time from 1970 has fewer civil seconds than the new year of `y` exactly when
its year is before `y`. -/
theorem unixSeconds_lt_newYear_iff (h : c.Valid) (hy : unixEpochYear ≤ c.year) {y : Nat}
    (hy' : unixEpochYear ≤ y) :
    c.unixSeconds < (⟨y, 1, 1, 0, 0, 0⟩ : CivilTime).unixSeconds ↔ c.year < y := by
  rw [unixSeconds_lt_iff h (newYear_valid y) hy hy']
  have := h.month_pos; have := h.day_pos
  unfold Before; dsimp only; omega

/-- The civil seconds of a new year, from the closed form of `days_before_year_ad`. -/
theorem unixSeconds_newYear {y : Nat} (hy : unixEpochYear ≤ y) :
    (⟨y, 1, 1, 0, 0, 0⟩ : CivilTime).unixSeconds =
      86400 * (daysBeforeYearAdValue y - daysBeforeUnixEpochAd) := by
  simp only [unixSeconds, dayIndex, secondOfDay, daysBeforeMonth_one,
    daysBeforeYearAdValue_eq_epoch hy]
  omega

theorem unixSeconds_newYear_10000 :
    (⟨10000, 1, 1, 0, 0, 0⟩ : CivilTime).unixSeconds = 253402300800 := by
  rw [unixSeconds_newYear (by decide)]; decide

theorem unixSeconds_newYear_2050 :
    (⟨2050, 1, 1, 0, 0, 0⟩ : CivilTime).unixSeconds = 2524608000 := by
  rw [unixSeconds_newYear (by decide)]; decide

end CivilTime

/-- **`time_from_ymdhms_utc` takes the valid civil times from 1970 to 9999 onto exactly the
seconds before 10000-01-01T00:00:00Z** (253402300800): every `Time` below it is the conversion of
one of them, and no other `Time` is. -/
theorem timeFromYmdhmsUtc_range (t : Time) :
    (∃ c : CivilTime, c.Valid ∧ 1970 ≤ c.year ∧ c.year ≤ 9999 ∧
      timeFromYmdhmsUtc c.year c.month c.day c.hour c.minute c.second = .ok t) ↔
      t.secs < 253402300800 := by
  have key : ∀ {c : CivilTime}, c.Valid → unixEpochYear ≤ c.year →
      (c.unixSeconds < 253402300800 ↔ c.year < 10000) := fun hv hy => by
    rw [← CivilTime.unixSeconds_newYear_10000]
    exact CivilTime.unixSeconds_lt_newYear_iff hv hy (by decide)
  constructor
  · rintro ⟨c, hv, hy, hy', ht⟩
    obtain ⟨t', ht', hs⟩ := CivilTime.exists_timeFromYmdhmsUtc hv hy hy'
    obtain rfl : t = t' := Outcome.ok.inj (ht.symm.trans ht')
    exact hs ▸ (key hv hy).mpr (by omega)
  · intro hs
    obtain ⟨c, hv, hy, hc⟩ := CivilTime.exists_unixSeconds_eq t.secs
    have hy' := (key hv hy).mp (hc ▸ hs)
    obtain ⟨t', ht', hs'⟩ := CivilTime.exists_timeFromYmdhmsUtc hv hy (by omega)
    exact ⟨c, hv, hy, by omega, by rw [ht', Time.ext (hs'.trans hc)]⟩

/-! ## What `Time::from_der` can return -/

/-- A valid civil time from 1970 lies before the first second a tag cannot write (2050 for
UTCTime, 10000 for GeneralizedTime) exactly when the tag can write its year. -/
theorem CivilTime.unixSeconds_lt_tag_iff {c : CivilTime} (h : c.Valid) (hy : unixEpochYear ≤ c.year)
    (tag : Tag) :
    c.unixSeconds < (if tag = .utcTime then 2524608000 else 253402300800) ↔
      c.year ≤ if tag == .utcTime then 2049 else 9999 := by
  cases tag
  · show c.unixSeconds < 2524608000 ↔ c.year ≤ 2049
    rw [← CivilTime.unixSeconds_newYear_2050, CivilTime.unixSeconds_lt_newYear_iff h hy (by decide)]
    omega
  · show c.unixSeconds < 253402300800 ↔ c.year ≤ 9999
    rw [← CivilTime.unixSeconds_newYear_10000, CivilTime.unixSeconds_lt_newYear_iff h hy (by decide)]
    omega

/-- **The exact range of `Time::from_der`**: from a UTCTime value it returns exactly the `Time`s
before 2050-01-01T00:00:00Z (2524608000), from a GeneralizedTime value exactly those before
10000-01-01T00:00:00Z (253402300800). Every `Time` it returns is below the bound of the tag, and
every `Time` below it is returned from the value whose contents encode it, whatever the
tag-and-length reader and whatever follows the value. -/
theorem fromDer_range :
    (∀ (expectTag : List UInt8 → Tag → Except Error (List UInt8 × List UInt8)) (tag : Tag)
        (rest after : List UInt8) (t : Time),
      Time.fromDer expectTag (tag.toByte :: rest) = .ok (t, after) →
        t.secs < if tag = .utcTime then 2524608000 else 253402300800) ∧
    ∀ (tag : Tag) (t : Time), t.secs < (if tag = .utcTime then 2524608000 else 253402300800) →
      ∃ v : List UInt8, ∀ (expectTag : List UInt8 → Tag → Except Error (List UInt8 × List UInt8))
        (rest after : List UInt8), expectTag (tag.toByte :: rest) tag = .ok (v, after) →
          Time.fromDer expectTag (tag.toByte :: rest) = .ok (t, after) := by
  refine ⟨fun expectTag tag rest after t h => ?_, fun tag t hs => ?_⟩
  · obtain ⟨c, ⟨hv, hy, hy'⟩, -, hs⟩ := fromDer_eq_ok.mp h
    rw [hs, CivilTime.unixSeconds_lt_tag_iff hv hy]
    exact hy'
  · obtain ⟨c, hv, hy, hc⟩ := CivilTime.exists_unixSeconds_eq t.secs
    have hy' := (CivilTime.unixSeconds_lt_tag_iff hv hy tag).mp (hc ▸ hs)
    exact ⟨encodeTime (tag == .utcTime) c, fun _ _ _ hx => fromDer_eq_ok.mpr
      ⟨c, ⟨hv, hy, hy'⟩, hx, hc.symm⟩⟩

/-! ## The byte order of the contents -/

/-- Positional order in base `b`: a number compares by its quotient, then by its remainder. -/
theorem divMod_lex_iff {b : Nat} (hb : 0 < b) (y y' : Nat) (R : Prop) :
    (y / b < y' / b ∨ y / b = y' / b ∧ (y % b < y' % b ∨ y % b = y' % b ∧ R)) ↔
      (y < y' ∨ y = y' ∧ R) := by
  have hstep : ∀ x, 0 ≤ x → b * (x + 1) = b * x + b := fun x _ => Nat.mul_succ b x
  have hlt := @tile_lt_iff (b * ·) (fun _ => b) 0 hstep _ _ _ _ (Nat.zero_le (y / b))
    (Nat.zero_le (y' / b)) (Nat.mod_lt y hb) (Nat.mod_lt y' hb)
  have heq := @tile_eq_iff (b * ·) (fun _ => b) 0 hstep _ _ _ _ (Nat.zero_le (y / b))
    (Nat.zero_le (y' / b)) (Nat.mod_lt y hb) (Nat.mod_lt y' hb)
  simp only [Nat.div_add_mod] at hlt heq
  rw [hlt, heq]
  simp only [and_or_left, or_assoc, and_assoc]

theorem lex_cons_iff {a b : UInt8} {l l' : List UInt8} :
    List.Lex (· < ·) (a :: l) (b :: l') ↔ a < b ∨ a = b ∧ List.Lex (· < ·) l l' := by
  constructor
  · intro h
    cases h with
    | cons h => exact .inr ⟨rfl, h⟩
    | rel h => exact .inl h
  · rintro (h | ⟨rfl, h⟩)
    · exact .rel h
    · exact .cons h

theorem encodeDigit_lt_iff {a b : Nat} (ha : a < 10) (hb : b < 10) :
    encodeDigit a < encodeDigit b ↔ a < b := by
  show (encodeDigit a).toNat < (encodeDigit b).toNat ↔ a < b
  rw [encodeDigit_toNat ha, encodeDigit_toNat hb]; omega

theorem encodeDigit_inj {a b : Nat} (ha : a < 10) (hb : b < 10) :
    encodeDigit a = encodeDigit b ↔ a = b := by
  rw [eq_encodeDigit_iff hb, encodeDigit_toNat ha]; omega

/-- Two digits, then the rest: the bytes compare as the numbers, then as the rest. -/
theorem lex_encodeTwoDigits_append_iff {a b : Nat} (ha : a < 100) (hb : b < 100)
    (r r' : List UInt8) :
    List.Lex (· < ·) (encodeTwoDigits a ++ r) (encodeTwoDigits b ++ r') ↔
      a < b ∨ a = b ∧ List.Lex (· < ·) r r' := by
  simp (disch := omega) only [encodeTwoDigits, List.cons_append, List.nil_append, lex_cons_iff,
    encodeDigit_lt_iff, encodeDigit_inj]
  exact divMod_lex_iff (by decide) a b _

/-- The canonical GeneralizedTime contents of civil times up to 9999 compare bytewise as the civil
times do. -/
theorem lex_encodeTime_iff {c₁ c₂ : CivilTime} (h₁ : c₁.Valid) (h₂ : c₂.Valid)
    (hy₁ : c₁.year ≤ 9999) (hy₂ : c₂.year ≤ 9999) :
    List.Lex (· < ·) (encodeTime false c₁) (encodeTime false c₂) ↔ c₁.Before c₂ := by
  have hZ : ¬((0x5A : UInt8) < 0x5A) := by decide
  have := h₁.month_le; have := h₁.day_le.trans (daysInMonth_getD_le _ _); have := h₁.hour_le
  have := h₁.minute_le; have := h₁.second_le
  have := h₂.month_le; have := h₂.day_le.trans (daysInMonth_getD_le _ _); have := h₂.hour_le
  have := h₂.minute_le; have := h₂.second_le
  rw [← List.append_nil (encodeTime false c₁), ← List.append_nil (encodeTime false c₂),
    encodeTime_append, encodeTime_append]
  simp (disch := omega) only [Bool.false_eq_true, if_false, lex_encodeTwoDigits_append_iff,
    lex_cons_iff, hZ, List.Lex.not_nil_right, true_and, false_or, and_false, or_false]
  rw [divMod_lex_iff (by decide) c₁.year c₂.year]
  rfl

/-- **GeneralizedTime contents compare bytewise as the times they parse to; UTCTime contents do
not.** Any two contents that parse as GeneralizedTime are in byte order exactly when their `Time`s
are. Across the pivot of the two-digit year, `000101000000Z` (2000) is bytewise before
`991231235959Z` (1999) though it parses to the later `Time`. -/
theorem fromDer_bytewise_order :
    (∀ (v₁ v₂ : List UInt8) (t₁ t₂ : Time),
      readAll (.trailingData Time.typeId) (Time.fromDerValue false) v₁ = .ok t₁ →
      readAll (.trailingData Time.typeId) (Time.fromDerValue false) v₂ = .ok t₂ →
      (t₁ < t₂ ↔ List.Lex (· < ·) v₁ v₂)) ∧
    ∃ (v₁ v₂ : List UInt8) (t₁ t₂ : Time),
      readAll (.trailingData Time.typeId) (Time.fromDerValue true) v₁ = .ok t₁ ∧
      readAll (.trailingData Time.typeId) (Time.fromDerValue true) v₂ = .ok t₂ ∧
      List.Lex (· < ·) v₁ v₂ ∧ t₂ < t₁ := by
  refine ⟨fun v₁ v₂ t₁ t₂ h₁ h₂ => ?_, encodeTime true ⟨2000, 1, 1, 0, 0, 0⟩,
    encodeTime true ⟨1999, 12, 31, 23, 59, 59⟩, ⟨946684800, by decide⟩, ⟨946684799, by decide⟩,
    by decide, by decide, .rel (by decide), by decide⟩
  obtain ⟨c₁, ⟨hv₁, hy₁, hy₁'⟩, rfl, hs₁⟩ := readAll_fromDerValue_eq_ok h₁
  obtain ⟨c₂, ⟨hv₂, hy₂, hy₂'⟩, rfl, hs₂⟩ := readAll_fromDerValue_eq_ok h₂
  rw [Time.lt_iff, hs₁, hs₂, lex_encodeTime_iff hv₁ hv₂ hy₁' hy₂']
  exact CivilTime.unixSeconds_lt_iff hv₁ hv₂ hy₁ hy₂

end Webpki
