/-
# Webpki.Time.Der — `Time::from_der`: parsing UTCTime and GeneralizedTime values.

`Time::from_der` peeks at the tag, reads one DER value of that tag with `der::nested`, and runs a
closure over the value's contents: two or four year digits (a two-digit UTCTime year pivots at 50),
then month, day, hour, minute and second as two digits each, each range-checked (the day against
`days_in_month`), then `Z`, then `time_from_ymdhms_utc`. `read_all` turns input left after the
closure's success into `TrailingData(Time)`.

The reader state is the list of unread bytes, and each reading step returns the rest. The
grammar side is `encodeTime`, the canonical contents for a civil time, with the civil times a tag
can express and the parser accepts (`CivilTime.Accepted`). The proofs follow the data: one step
lemma per reader (`readDigit_eq_ok`, `readTwoDigits_eq_ok`, with what it returns and that it
fails only with `BadDerTime`), then the closure, in both directions, then `read_all`, then
`der::nested`: on a value that starts with a tag byte, `Time::from_der` is the whole-value parse of
the contents the tag-and-length reader returns (`fromDer_tag`), and `fromDer_eq_ok` says exactly
what it returns. Over them: the canonical contents of a valid civil time read back as
`time_from_ymdhms_utc` of its fields (round trip, and pre-epoch rejection with it), and the `Time`s
`Time::from_der` returns compare as the civil times written in the certificate.

`der.rs`, which holds `der::nested` and the tag-and-length reader, is not part of the sources:
`nested` is modelled from the spec, and the tag-and-length reader is a parameter. Whatever it
does, it cannot make `from_der` panic.
-/
import Webpki.Time.Civil

namespace Webpki

/-! ## `untrusted` readers and `der::nested` -/

/-- `untrusted::Reader::read_byte`: the next byte and the rest, or `EndOfInput` (`none`). -/
def readByte : List UInt8 → Option (UInt8 × List UInt8)
  | [] => none
  | b :: rest => some (b, rest)

/-- `untrusted::Reader::peek`: whether the next byte is `b`. -/
def peek (input : List UInt8) (b : UInt8) : Bool := input.head? == some b

/-- `untrusted::Input::read_all`: run `read` over the whole input; a success that leaves input
unread becomes `incompleteRead`. -/
def readAll {α : Type} (incompleteRead : Error) (read : List UInt8 → Outcome (α × List UInt8))
    (input : List UInt8) : Outcome α := do
  let (r, rest) ← read input
  if rest.isEmpty then pure r else .err incompleteRead

/-- Modelled from the spec: the DER tags a time may carry (`der::Tag`, not in the sources), with
their ASN.1 universal tag numbers. -/
inductive Tag where
  | utcTime
  | generalizedTime
  deriving DecidableEq, Repr

/-- The tag byte. -/
def Tag.toByte : Tag → UInt8
  | .utcTime => 0x17
  | .generalizedTime => 0x18

/-- Modelled from the spec: `der::nested` (not in the sources). It reads one value of the
expected tag with `expectTag`, the tag-and-length reader of `der.rs` (not in the sources either,
hence a parameter: it returns the value's contents and the input after the value, or an error),
and runs `decoder` over the contents with `read_all`, whose unread remainder is `error`. -/
def nested {α : Type} (expectTag : List UInt8 → Tag → Except Error (List UInt8 × List UInt8))
    (input : List UInt8) (tag : Tag) (error : Error)
    (decoder : List UInt8 → Outcome (α × List UInt8)) : Outcome (α × List UInt8) := do
  let (value, rest) ← Outcome.ofExcept (expectTag input tag)
  let r ← readAll error decoder value
  pure (r, rest)

/-! ## `Time::from_der` -/

/-- `read_digit`: one byte in `DIGIT = b'0'..=b'9'`, as `b - b'0'`. -/
def readDigit (inner : List UInt8) : Outcome (Nat × List UInt8) := do
  let (b, inner) ← Outcome.ofOption .badDerTime (readByte inner)
  if 0x30 ≤ b.toNat ∧ b.toNat ≤ 0x39 then
    let d ← checkedSub b.toNat 0x30
    pure (d, inner)
  else .err .badDerTime

/-- `read_two_digits`. -/
def readTwoDigits (inner : List UInt8) (min max : Nat) : Outcome (Nat × List UInt8) := do
  let (hi, inner) ← readDigit inner
  let (lo, inner) ← readDigit inner
  let value ← checkedAdd (← checkedMul hi 10) lo
  if value < min ∨ value > max then .err .badDerTime else pure (value, inner)

/-- The year digits: one pair with the pivot for UTCTime, two pairs for GeneralizedTime. -/
def readYear (isUtcTime : Bool) (value : List UInt8) : Outcome ((Nat × Nat) × List UInt8) :=
  if isUtcTime then do
    let (lo, value) ← readTwoDigits value 0 99
    let hi := if lo ≥ 50 then 19 else 20
    pure ((hi, lo), value)
  else do
    let (hi, value) ← readTwoDigits value 0 99
    let (lo, value) ← readTwoDigits value 0 99
    pure ((hi, lo), value)

/-- The closure `Time::from_der` runs over the contents of the value. -/
def Time.fromDerValue (isUtcTime : Bool) (value : List UInt8) : Outcome (Time × List UInt8) := do
  let ((yearHi, yearLo), value) ← readYear isUtcTime value
  let year ← checkedAdd (← checkedMul yearHi 100) yearLo
  let (month, value) ← readTwoDigits value 1 12
  let daysInMonth ← daysInMonth year month
  let (dayOfMonth, value) ← readTwoDigits value 1 daysInMonth
  let (hours, value) ← readTwoDigits value 0 23
  let (minutes, value) ← readTwoDigits value 0 59
  let (seconds, value) ← readTwoDigits value 0 59
  let (timeZone, value) ← Outcome.ofOption .badDerTime (readByte value)
  if timeZone ≠ 0x5A then .err .badDerTime
  else do
    let t ← timeFromYmdhmsUtc year month dayOfMonth hours minutes seconds
    pure (t, value)

/-- `Time::TYPE_ID`. -/
def Time.typeId : DerTypeId := .time

/-- `Time::from_der`, over the tag-and-length reader `expectTag` of `der.rs`. -/
def Time.fromDer (expectTag : List UInt8 → Tag → Except Error (List UInt8 × List UInt8))
    (input : List UInt8) : Outcome (Time × List UInt8) :=
  let isUtcTime := peek input Tag.utcTime.toByte
  let expectedTag := if isUtcTime then Tag.utcTime else Tag.generalizedTime
  nested expectTag input expectedTag (.trailingData Time.typeId) (Time.fromDerValue isUtcTime)

/-! ## The canonical contents -/

/-- The ASCII digit `d`. -/
def encodeDigit (d : Nat) : UInt8 := UInt8.ofNat (0x30 + d)

/-- The two ASCII digits of `n < 100`. -/
def encodeTwoDigits (n : Nat) : List UInt8 := [encodeDigit (n / 10), encodeDigit (n % 10)]

/-- The contents of the UTCTime (`YYMMDDHHMMSSZ`) or GeneralizedTime (`YYYYMMDDHHMMSSZ`) value of
the civil time `c`. -/
def encodeTime (isUtcTime : Bool) (c : CivilTime) : List UInt8 :=
  (if isUtcTime then [] else encodeTwoDigits (c.year / 100)) ++ encodeTwoDigits (c.year % 100) ++
    encodeTwoDigits c.month ++ encodeTwoDigits c.day ++ encodeTwoDigits c.hour ++
    encodeTwoDigits c.minute ++ encodeTwoDigits c.second ++ [0x5A]

/-- The civil times a value of the tag expresses and `Time::from_der` accepts: valid fields, a
year from 1970, and a year the encoding can write — at most 2049 for UTCTime, whose two-digit year
`yy` means `1900 + yy` from 50 on and `2000 + yy` below, and at most 9999 for GeneralizedTime. -/
def CivilTime.Accepted (isUtcTime : Bool) (c : CivilTime) : Prop :=
  c.Valid ∧ 1970 ≤ c.year ∧ c.year ≤ if isUtcTime then 2049 else 9999

instance (isUtcTime : Bool) (c : CivilTime) : Decidable (c.Accepted isUtcTime) :=
  inferInstanceAs (Decidable (_ ∧ _))

/-- The civil times whose year the encoding writes so that it reads back: 1950 to 2049 for
UTCTime, the two centuries of the pivot, and at most 9999 for GeneralizedTime. -/
def CivilTime.Encodable (isUtcTime : Bool) (c : CivilTime) : Prop :=
  if isUtcTime then 1950 ≤ c.year ∧ c.year ≤ 2049 else c.year ≤ 9999

instance (isUtcTime : Bool) (c : CivilTime) : Decidable (c.Encodable isUtcTime) :=
  inferInstanceAs (Decidable (if isUtcTime then _ else _))

theorem CivilTime.Encodable.year_le {isUtcTime : Bool} {c : CivilTime} (he : c.Encodable isUtcTime) :
    c.year ≤ 9999 := by
  unfold CivilTime.Encodable at he; split at he <;> omega

theorem CivilTime.Accepted.encodable {isUtcTime : Bool} {c : CivilTime}
    (hc : c.Accepted isUtcTime) : c.Encodable isUtcTime := by
  obtain ⟨-, hy₁, hy₂⟩ := hc
  cases isUtcTime
  · exact hy₂
  · exact ⟨by omega, hy₂⟩

/-! ## One step lemma per reader -/

open Outcome (OkOr)

theorem encodeDigit_toNat {d : Nat} (h : d < 10) : (encodeDigit d).toNat = 0x30 + d :=
  UInt8.toNat_ofNat_of_lt (by unfold UInt8.size; omega)

theorem eq_encodeDigit_iff {b : UInt8} {d : Nat} (h : d < 10) :
    b = encodeDigit d ↔ b.toNat = 0x30 + d :=
  ⟨fun hb => hb ▸ encodeDigit_toNat h,
    fun hb => UInt8.toNat.inj (hb.trans (encodeDigit_toNat h).symm)⟩

/-- **`read_digit` reads exactly one ASCII digit.** -/
theorem readDigit_eq_ok {v rest : List UInt8} {d : Nat} :
    readDigit v = .ok (d, rest) ↔ d < 10 ∧ v = encodeDigit d :: rest := by
  cases v with
  | nil => simp [readDigit, readByte, Outcome.ofOption]
  | cons b v =>
    simp only [readDigit, readByte, Outcome.ofOption, Outcome.ok_bind, List.cons.injEq]
    split_ifs with hb
    · simp only [checkedSub_of_le hb.1, Outcome.ok_bind, Outcome.pure_eq_ok, Outcome.ok.injEq,
        Prod.mk.injEq]
      constructor
      · rintro ⟨rfl, rfl⟩
        exact ⟨by omega, (eq_encodeDigit_iff (by omega)).mpr (by omega), rfl⟩
      · rintro ⟨hd, hbd, rfl⟩
        rw [eq_encodeDigit_iff hd] at hbd
        exact ⟨by omega, rfl⟩
    · simp only [reduceCtorEq, false_iff, not_and]
      intro hd hbd
      rw [eq_encodeDigit_iff hd] at hbd
      omega

theorem readDigit_okOr (v : List UInt8) : (readDigit v).OkOr .badDerTime := by
  cases v with
  | nil => exact OkOr.err' _
  | cons b v =>
    simp only [readDigit, readByte, Outcome.ofOption, Outcome.ok_bind]
    split_ifs with hb
    · rw [checkedSub_of_le hb.1]; trivial
    · exact OkOr.err' _

/-- **`read_two_digits` reads exactly the two ASCII digits of an in-range value.** -/
theorem readTwoDigits_eq_ok {v rest : List UInt8} {min max n : Nat} :
    readTwoDigits v min max = .ok (n, rest) ↔
      n < 100 ∧ min ≤ n ∧ n ≤ max ∧ v = encodeTwoDigits n ++ rest := by
  constructor
  · intro h
    obtain ⟨⟨d₁, v₁⟩, h₁, h⟩ := Outcome.bind_eq_ok.mp h
    obtain ⟨⟨d₂, v₂⟩, h₂, h⟩ := Outcome.bind_eq_ok.mp h
    obtain ⟨a, ha, h⟩ := Outcome.bind_eq_ok.mp h
    obtain ⟨value, hv, h⟩ := Outcome.bind_eq_ok.mp h
    obtain ⟨hd₁, rfl⟩ := readDigit_eq_ok.mp h₁
    obtain ⟨hd₂, rfl⟩ := readDigit_eq_ok.mp h₂
    obtain ⟨-, rfl⟩ := checkedMul_eq_ok.mp ha
    obtain ⟨-, rfl⟩ := checkedAdd_eq_ok.mp hv
    split_ifs at h with hr
    simp only [Outcome.pure_eq_ok, Outcome.ok.injEq, Prod.mk.injEq] at h
    obtain ⟨rfl, rfl⟩ := h
    refine ⟨by omega, by omega, by omega, ?_⟩
    simp only [encodeTwoDigits, List.cons_append, List.nil_append]
    congr 3 <;> omega
  · rintro ⟨hn, hmin, hmax, rfl⟩
    have e₁ : readDigit (encodeTwoDigits n ++ rest) = .ok (n / 10, encodeDigit (n % 10) :: rest) :=
      readDigit_eq_ok.mpr ⟨by omega, rfl⟩
    have e₂ : readDigit (encodeDigit (n % 10) :: rest) = .ok (n % 10, rest) :=
      readDigit_eq_ok.mpr ⟨by omega, rfl⟩
    simp only [readTwoDigits, e₁, e₂, Outcome.ok_bind, checkedMul_of_lt (show n / 10 * 10 < 2 ^ 64 by omega),
      checkedAdd_of_lt (show n / 10 * 10 + n % 10 < 2 ^ 64 by omega)]
    rw [if_neg (by omega)]
    simp only [Outcome.pure_eq_ok, Outcome.ok.injEq, Prod.mk.injEq, and_true]
    omega

theorem readTwoDigits_okOr (v : List UInt8) (min max : Nat) :
    (readTwoDigits v min max).OkOr .badDerTime := by
  refine OkOr.bind (readDigit_okOr v) fun ⟨d₁, v₁⟩ h₁ => ?_
  refine OkOr.bind (readDigit_okOr v₁) fun ⟨d₂, v₂⟩ h₂ => ?_
  have := (readDigit_eq_ok.mp h₁).1
  have := (readDigit_eq_ok.mp h₂).1
  simp only [checkedMul_of_lt (show d₁ * 10 < 2 ^ 64 by omega),
    checkedAdd_of_lt (show d₁ * 10 + d₂ < 2 ^ 64 by omega), Outcome.ok_bind]
  exact OkOr.ite (fun _ => OkOr.err' _) fun _ => trivial

theorem ofOption_readByte_eq_ok {e : Error} {v rest : List UInt8} {b : UInt8} :
    Outcome.ofOption e (readByte v) = .ok (b, rest) ↔ v = b :: rest := by
  cases v <;> simp [readByte, Outcome.ofOption]

theorem ofOption_readByte_okOr (v : List UInt8) :
    (Outcome.ofOption .badDerTime (readByte v)).OkOr .badDerTime := by
  cases v
  · exact OkOr.err' _
  · trivial

/-- **The year digits**: two for UTCTime, with the century from the pivot at 50, four for
GeneralizedTime. -/
theorem readYear_eq_ok {isUtcTime : Bool} {v rest : List UInt8} {hi lo : Nat} :
    readYear isUtcTime v = .ok ((hi, lo), rest) ↔
      lo < 100 ∧ (if isUtcTime then hi = if lo ≥ 50 then 19 else 20 else hi < 100) ∧
        v = (if isUtcTime then [] else encodeTwoDigits hi) ++ (encodeTwoDigits lo ++ rest) := by
  cases isUtcTime with
  | true =>
    simp only [readYear, if_true, List.nil_append, Outcome.bind_eq_ok, Prod.exists,
      readTwoDigits_eq_ok, Outcome.pure_eq_ok, Outcome.ok.injEq, Prod.mk.injEq]
    constructor
    · rintro ⟨l, r, ⟨hl, -, -, rfl⟩, ⟨rfl, rfl⟩, rfl⟩
      exact ⟨hl, rfl, rfl⟩
    · rintro ⟨hl, rfl, rfl⟩
      exact ⟨lo, rest, ⟨hl, Nat.zero_le _, by omega, rfl⟩, ⟨rfl, rfl⟩, rfl⟩
  | false =>
    simp only [readYear, Bool.false_eq_true, if_false, Outcome.bind_eq_ok, Prod.exists,
      readTwoDigits_eq_ok, Outcome.pure_eq_ok, Outcome.ok.injEq, Prod.mk.injEq]
    constructor
    · rintro ⟨h', r₁, ⟨hh, -, -, rfl⟩, l, r₂, ⟨hl, -, -, rfl⟩, ⟨rfl, rfl⟩, rfl⟩
      exact ⟨hl, hh, rfl⟩
    · rintro ⟨hl, hh, rfl⟩
      exact ⟨hi, _, ⟨hh, Nat.zero_le _, by omega, rfl⟩, lo, rest,
        ⟨hl, Nat.zero_le _, by omega, rfl⟩, ⟨rfl, rfl⟩, rfl⟩

theorem readYear_okOr (isUtcTime : Bool) (v : List UInt8) :
    (readYear isUtcTime v).OkOr .badDerTime := by
  cases isUtcTime
  · exact OkOr.bind (readTwoDigits_okOr _ _ _) fun _ _ =>
      OkOr.bind (readTwoDigits_okOr _ _ _) fun _ _ => trivial
  · exact OkOr.bind (readTwoDigits_okOr _ _ _) fun _ _ => trivial

/-! ## The closure, in both directions -/

/-- **What the closure accepts is the canonical contents of an accepted civil time**, and the
`Time` it returns is `time_from_ymdhms_utc` of it. -/
theorem fromDerValue_sound {isUtcTime : Bool} {v rest : List UInt8} {t : Time}
    (h : Time.fromDerValue isUtcTime v = .ok (t, rest)) :
    ∃ c : CivilTime, c.Accepted isUtcTime ∧ v = encodeTime isUtcTime c ++ rest ∧
      timeFromYmdhmsUtc c.year c.month c.day c.hour c.minute c.second = .ok t := by
  obtain ⟨⟨⟨hi, lo⟩, v₁⟩, hy, h⟩ := Outcome.bind_eq_ok.mp h
  obtain ⟨a, ha, h⟩ := Outcome.bind_eq_ok.mp h
  obtain ⟨year, hyear, h⟩ := Outcome.bind_eq_ok.mp h
  obtain ⟨⟨month, v₂⟩, hm, h⟩ := Outcome.bind_eq_ok.mp h
  obtain ⟨dim, hdim, h⟩ := Outcome.bind_eq_ok.mp h
  obtain ⟨⟨day, v₃⟩, hd, h⟩ := Outcome.bind_eq_ok.mp h
  obtain ⟨⟨hours, v₄⟩, hh, h⟩ := Outcome.bind_eq_ok.mp h
  obtain ⟨⟨minutes, v₅⟩, hmi, h⟩ := Outcome.bind_eq_ok.mp h
  obtain ⟨⟨seconds, v₆⟩, hs, h⟩ := Outcome.bind_eq_ok.mp h
  obtain ⟨⟨tz, v₇⟩, htz, h⟩ := Outcome.bind_eq_ok.mp h
  dsimp only at h
  split_ifs at h with hz
  obtain ⟨t', ht, h⟩ := Outcome.bind_eq_ok.mp h
  simp only [Outcome.pure_eq_ok, Outcome.ok.injEq, Prod.mk.injEq] at h
  obtain ⟨rfl, rfl⟩ := h
  obtain ⟨hlo, hhi, rfl⟩ := readYear_eq_ok.mp hy
  obtain ⟨-, rfl⟩ := checkedMul_eq_ok.mp ha
  obtain ⟨-, rfl⟩ := checkedAdd_eq_ok.mp hyear
  obtain ⟨-, hm1, hm12, rfl⟩ := readTwoDigits_eq_ok.mp hm
  obtain ⟨-, hd1, hdd, rfl⟩ := readTwoDigits_eq_ok.mp hd
  obtain ⟨-, -, hh23, rfl⟩ := readTwoDigits_eq_ok.mp hh
  obtain ⟨-, -, hmi59, rfl⟩ := readTwoDigits_eq_ok.mp hmi
  obtain ⟨-, -, hs59, rfl⟩ := readTwoDigits_eq_ok.mp hs
  obtain rfl := ofOption_readByte_eq_ok.mp htz
  obtain rfl : tz = 0x5A := not_not.mp hz
  have hyear := unixEpochYear_le_of_timeFromYmdhmsUtc ht
  have hdiv : (hi * 100 + lo) / 100 = hi := by omega
  have hmod : (hi * 100 + lo) % 100 = lo := by omega
  refine ⟨⟨hi * 100 + lo, month, day, hours, minutes, seconds⟩,
    ⟨⟨hm1, hm12, hd1, by rw [hdim]; exact hdd, hh23, hmi59, hs59⟩, hyear, ?_⟩, ?_, ht⟩
  · cases isUtcTime
    · simp only [Bool.false_eq_true, if_false] at hhi ⊢; omega
    · simp only [if_true] at hhi ⊢; split_ifs at hhi <;> omega
  · simp only [encodeTime, hdiv, hmod, List.append_assoc, List.singleton_append]

/-- **The closure fails only with `BadDerTime`, and never panics.** No `u64` step overflows, the
`unreachable!()` of `days_in_month` is not reached, and `time_from_ymdhms_utc` gets a year of at
most four digits. -/
theorem fromDerValue_okOr (isUtcTime : Bool) (v : List UInt8) :
    (Time.fromDerValue isUtcTime v).OkOr .badDerTime := by
  refine OkOr.bind (readYear_okOr isUtcTime v) fun ⟨⟨hi, lo⟩, v₁⟩ hy => ?_
  obtain ⟨hlo, hhi, -⟩ := readYear_eq_ok.mp hy
  have hhi' : hi < 100 := by
    cases isUtcTime
    · simpa using hhi
    · simp only [if_true] at hhi; split_ifs at hhi <;> omega
  simp only [checkedMul_of_lt (show hi * 100 < 2 ^ 64 by omega),
    checkedAdd_of_lt (show hi * 100 + lo < 2 ^ 64 by omega), Outcome.ok_bind]
  refine OkOr.bind (readTwoDigits_okOr _ _ _) fun ⟨month, v₂⟩ hm => ?_
  obtain ⟨-, hm1, hm12, -⟩ := readTwoDigits_eq_ok.mp hm
  dsimp only
  rw [daysInMonth_ok _ hm1 hm12, Outcome.ok_bind]
  refine OkOr.bind (readTwoDigits_okOr _ _ _) fun ⟨day, v₃⟩ hd => ?_
  obtain ⟨-, hd1, hdd, -⟩ := readTwoDigits_eq_ok.mp hd
  have hd31 := hdd.trans (daysInMonth_getD_le (hi * 100 + lo) month)
  refine OkOr.bind (readTwoDigits_okOr _ _ _) fun ⟨hours, v₄⟩ hh => ?_
  refine OkOr.bind (readTwoDigits_okOr _ _ _) fun ⟨minutes, v₅⟩ hmi => ?_
  refine OkOr.bind (readTwoDigits_okOr _ _ _) fun ⟨seconds, v₆⟩ hs => ?_
  refine OkOr.bind (ofOption_readByte_okOr _) fun ⟨tz, v₇⟩ _ => ?_
  refine OkOr.ite (fun _ => OkOr.err' _) fun _ =>
    OkOr.bind ((@OkOr.map_iff _ _ _ Time.secs _).mp ?_) fun _ _ => trivial
  rw [timeFromYmdhmsUtc_eq (by omega) hm1 hm12 hd1 hd31 (readTwoDigits_eq_ok.mp hh).2.2.1
    (readTwoDigits_eq_ok.mp hmi).2.2.1 (readTwoDigits_eq_ok.mp hs).2.2.1]
  exact OkOr.ite (fun _ => OkOr.err' _) fun _ => trivial

theorem readTwoDigits_encode {n min max : Nat} (hn : n < 100) (h₁ : min ≤ n) (h₂ : n ≤ max)
    (rest : List UInt8) : readTwoDigits (encodeTwoDigits n ++ rest) min max = .ok (n, rest) :=
  readTwoDigits_eq_ok.mpr ⟨hn, h₁, h₂, rfl⟩

theorem encodeTime_append (isUtcTime : Bool) (c : CivilTime) (rest : List UInt8) :
    encodeTime isUtcTime c ++ rest =
      (if isUtcTime then [] else encodeTwoDigits (c.year / 100)) ++
        (encodeTwoDigits (c.year % 100) ++ (encodeTwoDigits c.month ++ (encodeTwoDigits c.day ++
          (encodeTwoDigits c.hour ++ (encodeTwoDigits c.minute ++ (encodeTwoDigits c.second ++
            (0x5A :: rest))))))) := by
  simp [encodeTime]

/-- The year digits of a civil time whose year the tag can write read back as its year. -/
theorem readYear_encodeTime {isUtcTime : Bool} {c : CivilTime} (he : c.Encodable isUtcTime)
    (rest : List UInt8) :
    ∃ hi lo, readYear isUtcTime (encodeTime isUtcTime c ++ rest) =
      .ok ((hi, lo), encodeTwoDigits c.month ++ (encodeTwoDigits c.day ++ (encodeTwoDigits c.hour ++
        (encodeTwoDigits c.minute ++ (encodeTwoDigits c.second ++ (0x5A :: rest)))))) ∧
      hi * 100 + lo = c.year := by
  have hlo : c.year % 100 < 100 := Nat.mod_lt _ (by norm_num)
  rw [encodeTime_append]
  cases isUtcTime
  · have hy : c.year ≤ 9999 := he
    exact ⟨_, _, readYear_eq_ok.mpr ⟨hlo, by simp only [Bool.false_eq_true, if_false]; omega, rfl⟩,
      Nat.div_add_mod' _ _⟩
  · obtain ⟨hy₁, hy₂⟩ : 1950 ≤ c.year ∧ c.year ≤ 2049 := he
    refine ⟨if c.year % 100 ≥ 50 then 19 else 20, _,
      readYear_eq_ok.mpr ⟨hlo, by simp only [if_true], by simp only [if_true]⟩, ?_⟩
    split_ifs <;> omega

/-- **The closure reads the canonical contents of a valid civil time back as its fields**, whatever
the year, hands them to `time_from_ymdhms_utc`, and hands back what follows untouched. -/
theorem fromDerValue_encodeTime {isUtcTime : Bool} {c : CivilTime} (hv : c.Valid)
    (he : c.Encodable isUtcTime) (rest : List UInt8) :
    Time.fromDerValue isUtcTime (encodeTime isUtcTime c ++ rest) = (do
      let t ← timeFromYmdhmsUtc c.year c.month c.day c.hour c.minute c.second
      pure (t, rest)) := by
  have hy := he.year_le
  obtain ⟨hi, lo, hread, hyear⟩ := readYear_encodeTime he rest
  obtain ⟨n, hdim⟩ : ∃ n, daysInMonth c.year c.month = .ok n :=
    ⟨_, daysInMonth_ok _ hv.month_pos hv.month_le⟩
  have hdn : c.day ≤ n := by simpa [hdim] using hv.day_le
  have hn := daysInMonth_getD_le c.year c.month
  rw [hdim, Outcome.getD_ok] at hn
  simp only [Time.fromDerValue, hread, Outcome.ok_bind,
    checkedMul_of_lt (show hi * 100 < 2 ^ 64 by omega),
    checkedAdd_of_lt (show hi * 100 + lo < 2 ^ 64 by omega), hyear,
    readTwoDigits_encode (by have := hv.month_le; omega) hv.month_pos hv.month_le, hdim,
    readTwoDigits_encode (show c.day < 100 by omega) hv.day_pos hdn,
    readTwoDigits_encode (by have := hv.hour_le; omega) (Nat.zero_le _) hv.hour_le,
    readTwoDigits_encode (by have := hv.minute_le; omega) (Nat.zero_le _) hv.minute_le,
    readTwoDigits_encode (by have := hv.second_le; omega) (Nat.zero_le _) hv.second_le,
    readByte, Outcome.ofOption, ne_eq, not_true_eq_false, if_false]

/-- **The closure accepts the canonical contents of every accepted civil time**, returns its civil
seconds, and hands back what follows untouched. -/
theorem fromDerValue_complete {isUtcTime : Bool} {c : CivilTime} (hc : c.Accepted isUtcTime)
    (rest : List UInt8) :
    ∃ t : Time, t.secs = c.unixSeconds ∧
      Time.fromDerValue isUtcTime (encodeTime isUtcTime c ++ rest) = .ok (t, rest) := by
  obtain ⟨t, ht, hs⟩ := CivilTime.exists_timeFromYmdhmsUtc hc.1 hc.2.1 hc.encodable.year_le
  exact ⟨t, hs, by rw [fromDerValue_encodeTime hc.1 hc.encodable, ht]; rfl⟩

example : Time.fromDerValue false (encodeTime false ⟨2017, 4, 17, 17, 12, 42⟩) =
    .ok (⟨1492449162, by decide⟩, []) := by decide

/-! ## `read_all`, and `Time::from_der` on a whole value -/

section ReadAll

variable {α : Type} {e : Error} {read : List UInt8 → Outcome (α × List UInt8)} {v : List UInt8}

theorem readAll_of_ok {r : α} {rest : List UInt8} (h : read v = .ok (r, rest)) :
    readAll e read v = if rest.isEmpty then .ok r else .err e := by
  simp only [readAll, h, Outcome.ok_bind, Outcome.pure_eq_ok]

theorem readAll_of_err {e' : Error} (h : read v = .err e') : readAll e read v = .err e' := by
  simp only [readAll, h, Outcome.err_bind]

/-- A read that consumes the whole input is its own whole-value read. -/
theorem readAll_of_consumes {x : Outcome α} (h : read v = x >>= fun r => pure (r, [])) :
    readAll e read v = x := by
  cases x <;> simp [readAll, h]

theorem readAll_eq_ok {r : α} : readAll e read v = .ok r ↔ read v = .ok (r, []) := by
  rcases h : read v with ⟨r', rest⟩ | e' | _
  · rw [readAll_of_ok h]
    cases rest <;> simp
  · simp [readAll_of_err h]
  · simp [readAll, h]

end ReadAll

/-- **The whole-value parse of the contents of a value**: `Ok` exactly on the canonical contents of
an accepted civil time, `t` being `time_from_ymdhms_utc` of it; `TrailingData(Time)` on such
contents followed by more bytes; `BadDerTime` on anything else. -/
theorem readAll_fromDerValue_spec (isUtcTime : Bool) (v : List UInt8) :
    (∀ t, readAll (.trailingData Time.typeId) (Time.fromDerValue isUtcTime) v = .ok t ↔
        ∃ c : CivilTime, c.Accepted isUtcTime ∧ v = encodeTime isUtcTime c ∧
          timeFromYmdhmsUtc c.year c.month c.day c.hour c.minute c.second = .ok t) ∧
      (∀ (c : CivilTime) (extra : List UInt8), c.Accepted isUtcTime → extra ≠ [] →
        v = encodeTime isUtcTime c ++ extra →
          readAll (.trailingData Time.typeId) (Time.fromDerValue isUtcTime) v =
            .err (.trailingData Time.typeId)) ∧
      ((¬∃ (c : CivilTime) (extra : List UInt8), c.Accepted isUtcTime ∧
          v = encodeTime isUtcTime c ++ extra) →
        readAll (.trailingData Time.typeId) (Time.fromDerValue isUtcTime) v = .err .badDerTime) := by
  refine ⟨fun t => ⟨fun h => ?_, ?_⟩, ?_, fun hnone => ?_⟩
  · obtain ⟨c, hc, hv, ht⟩ := fromDerValue_sound (readAll_eq_ok.mp h)
    exact ⟨c, hc, by simpa using hv, ht⟩
  · rintro ⟨c, hc, rfl, ht⟩
    rw [← ht]
    exact readAll_of_consumes (by simpa using fromDerValue_encodeTime hc.1 hc.encodable [])
  · rintro c extra hc hextra rfl
    obtain ⟨t, -, ht⟩ := fromDerValue_complete hc extra
    rw [readAll_of_ok ht, if_neg (by simpa using hextra)]
  · rcases hv : Time.fromDerValue isUtcTime v with ⟨t, extra⟩ | e | _
    · obtain ⟨c, hc, hv, -⟩ := fromDerValue_sound hv
      exact absurd ⟨c, extra, hc, hv⟩ hnone
    · rw [readAll_of_err hv, (fromDerValue_okOr isUtcTime v).eq_err hv]
    · exact absurd hv (fromDerValue_okOr isUtcTime v).ne_panic

/-- The `Time` of a value that parses is the civil seconds of the civil time it encodes. -/
theorem readAll_fromDerValue_eq_ok {isUtcTime : Bool} {v : List UInt8} {t : Time}
    (h : readAll (.trailingData Time.typeId) (Time.fromDerValue isUtcTime) v = .ok t) :
    ∃ c : CivilTime, c.Accepted isUtcTime ∧ v = encodeTime isUtcTime c ∧ t.secs = c.unixSeconds := by
  obtain ⟨c, hc, hv, ht⟩ := fromDerValue_sound (readAll_eq_ok.mp h)
  have hs := CivilTime.timeFromYmdhmsUtc_valid hc.1 hc.2.1 hc.encodable.year_le
  rw [ht, Outcome.map_ok, Outcome.ok.injEq] at hs
  exact ⟨c, hc, by simpa using hv, hs⟩

/-! ## `der::nested`, and `Time::from_der` on a tagged value -/

section Nested

variable {α : Type} {expectTag : List UInt8 → Tag → Except Error (List UInt8 × List UInt8)}
  {input : List UInt8} {tag : Tag} {error : Error} {decoder : List UInt8 → Outcome (α × List UInt8)}

theorem nested_of_ok {v after : List UInt8} (h : expectTag input tag = .ok (v, after)) :
    nested expectTag input tag error decoder = readAll error decoder v >>= fun r => pure (r, after) := by
  simp only [nested, h, Outcome.ofExcept, Outcome.ok_bind]

theorem nested_of_error {e : Error} (h : expectTag input tag = .error e) :
    nested expectTag input tag error decoder = .err e := by
  simp only [nested, h, Outcome.ofExcept, Outcome.err_bind]

end Nested

/-- On a value that starts with the tag byte of `tag`, `Time::from_der` reads a value of that tag
and parses its contents as that tag prescribes. -/
theorem fromDer_tagged (expectTag : List UInt8 → Tag → Except Error (List UInt8 × List UInt8))
    (tag : Tag) (rest : List UInt8) :
    Time.fromDer expectTag (tag.toByte :: rest) = nested expectTag (tag.toByte :: rest) tag
      (.trailingData Time.typeId) (Time.fromDerValue (tag == .utcTime)) := by
  cases tag <;> rfl

/-- `Time::from_der` is the whole-value parse of the contents of the value `der::nested` reads. -/
theorem fromDer_of_expectTag {expectTag : List UInt8 → Tag → Except Error (List UInt8 × List UInt8)}
    {input v after : List UInt8}
    (h : expectTag input (if peek input Tag.utcTime.toByte then .utcTime else .generalizedTime) =
      .ok (v, after)) :
    Time.fromDer expectTag input = (do
      let t ← readAll (.trailingData Time.typeId) (Time.fromDerValue (peek input Tag.utcTime.toByte)) v
      pure (t, after)) :=
  nested_of_ok h

/-- **`Time::from_der` on a tagged value** is the whole-value parse of the contents the
tag-and-length reader returns, the input after the value handed back. -/
theorem fromDer_tag {expectTag : List UInt8 → Tag → Except Error (List UInt8 × List UInt8)}
    {tag : Tag} {rest v after : List UInt8} (h : expectTag (tag.toByte :: rest) tag = .ok (v, after)) :
    Time.fromDer expectTag (tag.toByte :: rest) =
      readAll (.trailingData Time.typeId) (Time.fromDerValue (tag == .utcTime)) v >>=
        fun t => pure (t, after) := by
  rw [fromDer_tagged, nested_of_ok h]

/-- **What `Time::from_der` returns on a tagged value**: the `Time` of an accepted civil time
whose canonical contents the tag-and-length reader returned, with the input after the value. -/
theorem fromDer_eq_ok {expectTag : List UInt8 → Tag → Except Error (List UInt8 × List UInt8)}
    {tag : Tag} {rest after : List UInt8} {t : Time} :
    Time.fromDer expectTag (tag.toByte :: rest) = .ok (t, after) ↔
      ∃ c : CivilTime, c.Accepted (tag == .utcTime) ∧
        expectTag (tag.toByte :: rest) tag = .ok (encodeTime (tag == .utcTime) c, after) ∧
        t.secs = c.unixSeconds := by
  constructor
  · intro h
    rcases hx : expectTag (tag.toByte :: rest) tag with e | ⟨v, a⟩
    · rw [fromDer_tagged, nested_of_error hx] at h
      cases h
    · rw [fromDer_tag hx, Outcome.bind_pair_eq_ok] at h
      obtain ⟨hr, rfl⟩ := h
      obtain ⟨c, hc, rfl, hs⟩ := readAll_fromDerValue_eq_ok hr
      exact ⟨c, hc, rfl, hs⟩
  · rintro ⟨c, hc, hx, hs⟩
    obtain ⟨t', hs', ht'⟩ := fromDerValue_complete hc []
    rw [fromDer_tag hx, readAll_eq_ok.mpr (by simpa using ht'), Time.ext (hs'.trans hs.symm)]
    rfl

/-- **`Time::from_der` accepts exactly the canonical encodings of valid civil times from 1970.**
On a UTCTime or GeneralizedTime value whose contents the tag-and-length reader returns as `v`, it
returns `Ok(t)` exactly when `v` is the canonical contents of an accepted civil time, `t` being
that time's `time_from_ymdhms_utc`, and hands back the input after the value; those contents
followed by more bytes give `TrailingData(Time)`; every other `v` gives `BadDerTime`. A civil time
from 1970 to 2049 gets the same `Time` from both encodings. -/
theorem fromDer_accepts_exactly_canonical_times :
    (∀ (expectTag : List UInt8 → Tag → Except Error (List UInt8 × List UInt8)) (tag : Tag)
        (rest v after : List UInt8), expectTag (tag.toByte :: rest) tag = .ok (v, after) →
      (∀ t a, Time.fromDer expectTag (tag.toByte :: rest) = .ok (t, a) ↔
        (∃ c : CivilTime, c.Accepted (tag == .utcTime) ∧ v = encodeTime (tag == .utcTime) c ∧
          timeFromYmdhmsUtc c.year c.month c.day c.hour c.minute c.second = .ok t) ∧ a = after) ∧
      (∀ (c : CivilTime) (extra : List UInt8), c.Accepted (tag == .utcTime) → extra ≠ [] →
        v = encodeTime (tag == .utcTime) c ++ extra →
          Time.fromDer expectTag (tag.toByte :: rest) = .err (.trailingData Time.typeId)) ∧
      ((¬∃ (c : CivilTime) (extra : List UInt8), c.Accepted (tag == .utcTime) ∧
          v = encodeTime (tag == .utcTime) c ++ extra) →
        Time.fromDer expectTag (tag.toByte :: rest) = .err .badDerTime)) ∧
    ∀ c : CivilTime, c.Valid → 1970 ≤ c.year → c.year ≤ 2049 →
      ∀ (expectTag : List UInt8 → Tag → Except Error (List UInt8 × List UInt8))
        (rest₁ rest₂ after₁ after₂ : List UInt8),
        expectTag (Tag.utcTime.toByte :: rest₁) .utcTime = .ok (encodeTime true c, after₁) →
        expectTag (Tag.generalizedTime.toByte :: rest₂) .generalizedTime =
          .ok (encodeTime false c, after₂) →
        ∃ t, Time.fromDer expectTag (Tag.utcTime.toByte :: rest₁) = .ok (t, after₁) ∧
          Time.fromDer expectTag (Tag.generalizedTime.toByte :: rest₂) = .ok (t, after₂) := by
  refine ⟨fun expectTag tag rest v after h => ?_, fun c hc hy₁ hy₂ expectTag rest₁ rest₂ after₁
    after₂ h₁ h₂ => ?_⟩
  · obtain ⟨hok, htrail, hbad⟩ := readAll_fromDerValue_spec (tag == .utcTime) v
    rw [fromDer_tag h]
    refine ⟨fun t a => by rw [Outcome.bind_pair_eq_ok, hok], fun c extra hc hextra hv => ?_,
      fun hnone => ?_⟩
    · rw [htrail c extra hc hextra hv]; rfl
    · rw [hbad hnone]; rfl
  · -- both encodings parse to the `Time` of the civil seconds of `c`
    obtain ⟨t, -, hs⟩ := CivilTime.exists_timeFromYmdhmsUtc hc hy₁ (by omega)
    exact ⟨t, fromDer_eq_ok.mpr ⟨c, ⟨hc, hy₁, hy₂⟩, h₁, hs⟩,
      fromDer_eq_ok.mpr ⟨c, ⟨hc, hy₁, show c.year ≤ 9999 by omega⟩, h₂, hs⟩⟩

/-- **`Time::from_der` never panics**: whatever the input, and whatever the tag-and-length reader
returns, it finishes with `Ok` or `Err`. No `u64` step overflows or underflows, no
`unreachable!()` is reached and the `debug_assert!` holds. -/
theorem fromDer_never_panics (expectTag : List UInt8 → Tag → Except Error (List UInt8 × List UInt8))
    (input : List UInt8) : Time.fromDer expectTag input ≠ .panic := by
  simp only [Time.fromDer, nested]
  rcases expectTag input _ with e | ⟨v, after⟩
  · simp [Outcome.ofExcept]
  · simp only [Outcome.ofExcept, Outcome.ok_bind]
    rcases hv : Time.fromDerValue (peek input Tag.utcTime.toByte) v with ⟨t, rest⟩ | e | _
    · rw [readAll_of_ok hv]; split <;> simp
    · simp [readAll_of_err hv]
    · exact absurd hv (fromDerValue_okOr _ v).ne_panic

/-! ## Round trip, pre-epoch rejection, and comparing parsed times -/

/-- **Pre-epoch rejection**: contents whose year digits read as a year before 1970 give
`BadDerTime`, whatever the other fields and whatever follows. -/
theorem fromDer_rejects_pre_epoch (isUtcTime : Bool) (v rest : List UInt8) (hi lo : Nat)
    (hy : readYear isUtcTime v = .ok ((hi, lo), rest)) (hpre : hi * 100 + lo < 1970) :
    readAll (.trailingData Time.typeId) (Time.fromDerValue isUtcTime) v = .err .badDerTime := by
  rcases hr : Time.fromDerValue isUtcTime v with ⟨t, r⟩ | e | _
  · obtain ⟨c, hc, rfl, -⟩ := fromDerValue_sound hr
    obtain ⟨hi', lo', hy', hyear⟩ := readYear_encodeTime hc.encodable r
    rw [hy', Outcome.ok.injEq] at hy
    obtain ⟨⟨rfl, rfl⟩, -⟩ := Prod.mk.inj hy
    exact absurd hc.2.1 (by omega)
  · rw [readAll_of_err hr, (fromDerValue_okOr isUtcTime v).eq_err hr]
  · exact absurd hr (fromDerValue_okOr isUtcTime v).ne_panic

theorem fromDer_rejects_pre_epoch_1969 :
    readYear false (encodeTime false ⟨1969, 12, 31, 23, 59, 59⟩) =
        .ok ((19, 69), (encodeTime false ⟨1969, 12, 31, 23, 59, 59⟩).drop 4) ∧ 19 * 100 + 69 < 1970 ∧
      readAll (.trailingData Time.typeId) (Time.fromDerValue false)
        (encodeTime false ⟨1969, 12, 31, 23, 59, 59⟩) = .err .badDerTime :=
  ⟨by decide, by decide, fromDer_rejects_pre_epoch false _
    ((encodeTime false ⟨1969, 12, 31, 23, 59, 59⟩).drop 4) 19 69 (by decide) (by decide)⟩

/-- **Parsed times compare as the civil times written in the certificate**: two values that
`Time::from_der` accepts, of either tag, hold the canonical contents of accepted civil times, and
their `Time`s are ordered, and equal, exactly as those civil times are. So a `Time` has one
encoding per tag. -/
theorem fromDer_compare_civil {expectTag : List UInt8 → Tag → Except Error (List UInt8 × List UInt8)}
    {tag₁ tag₂ : Tag} {rest₁ rest₂ after₁ after₂ : List UInt8} {t₁ t₂ : Time}
    (h₁ : Time.fromDer expectTag (tag₁.toByte :: rest₁) = .ok (t₁, after₁))
    (h₂ : Time.fromDer expectTag (tag₂.toByte :: rest₂) = .ok (t₂, after₂)) :
    ∃ c₁ c₂ : CivilTime, c₁.Accepted (tag₁ == .utcTime) ∧ c₂.Accepted (tag₂ == .utcTime) ∧
      expectTag (tag₁.toByte :: rest₁) tag₁ = .ok (encodeTime (tag₁ == .utcTime) c₁, after₁) ∧
      expectTag (tag₂.toByte :: rest₂) tag₂ = .ok (encodeTime (tag₂ == .utcTime) c₂, after₂) ∧
      (t₁ < t₂ ↔ c₁.Before c₂) ∧ (t₁ = t₂ ↔ c₁ = c₂) := by
  obtain ⟨c₁, hc₁, hx₁, hs₁⟩ := fromDer_eq_ok.mp h₁
  obtain ⟨c₂, hc₂, hx₂, hs₂⟩ := fromDer_eq_ok.mp h₂
  refine ⟨c₁, c₂, hc₁, hc₂, hx₁, hx₂, ?_, ?_⟩
  · rw [Time.lt_iff, hs₁, hs₂]
    exact CivilTime.unixSeconds_lt_iff hc₁.1 hc₂.1 hc₁.2.1 hc₂.2.1
  · rw [Time.ext_iff, hs₁, hs₂]
    exact CivilTime.unixSeconds_inj hc₁.1 hc₂.1 hc₁.2.1 hc₂.2.1

theorem fromDer_compare_civil_new_year :
    (Time.fromDer (fun input _ => .ok (input.tail, []))
        (Tag.generalizedTime.toByte :: encodeTime false ⟨2016, 12, 31, 23, 59, 59⟩) =
        .ok (⟨1483228799, by decide⟩, []) ∧
      Time.fromDer (fun input _ => .ok (input.tail, []))
        (Tag.utcTime.toByte :: encodeTime true ⟨2017, 1, 1, 0, 0, 0⟩) =
        .ok (⟨1483228800, by decide⟩, [])) ∧
    ∃ c₁ c₂ : CivilTime, c₁.Accepted (Tag.generalizedTime == .utcTime) ∧
      c₂.Accepted (Tag.utcTime == .utcTime) ∧
      (.ok (encodeTime false ⟨2016, 12, 31, 23, 59, 59⟩, []) : Except Error (List UInt8 × List UInt8)) =
        .ok (encodeTime (Tag.generalizedTime == .utcTime) c₁, []) ∧
      (.ok (encodeTime true ⟨2017, 1, 1, 0, 0, 0⟩, []) : Except Error (List UInt8 × List UInt8)) =
        .ok (encodeTime (Tag.utcTime == .utcTime) c₂, []) ∧
      ((⟨1483228799, by decide⟩ : Time) < ⟨1483228800, by decide⟩ ↔ c₁.Before c₂) ∧
      ((⟨1483228799, by decide⟩ : Time) = ⟨1483228800, by decide⟩ ↔ c₁ = c₂) :=
  ⟨⟨by decide, by decide⟩, @fromDer_compare_civil (fun input _ => .ok (input.tail, []))
    .generalizedTime .utcTime (encodeTime false ⟨2016, 12, 31, 23, 59, 59⟩)
    (encodeTime true ⟨2017, 1, 1, 0, 0, 0⟩) [] [] ⟨1483228799, by decide⟩ ⟨1483228800, by decide⟩
    (by decide) (by decide)⟩

/-- **What `Time::from_der` can fail with**: `BadDerTime` from the closure, `TrailingData(Time)`
from the whole-value check, or the error the tag-and-length reader returned. -/
theorem fromDer_errors (expectTag : List UInt8 → Tag → Except Error (List UInt8 × List UInt8))
    (input : List UInt8) (e : Error) (h : Time.fromDer expectTag input = .err e) :
    e = .badDerTime ∨ e = .trailingData Time.typeId ∨
      expectTag input (if peek input Tag.utcTime.toByte then .utcTime else .generalizedTime) =
        .error e := by
  rcases hx : expectTag input (if peek input Tag.utcTime.toByte then .utcTime else .generalizedTime)
    with e' | ⟨v, after⟩
  · simp only [Time.fromDer, nested, hx, Outcome.ofExcept, Outcome.err_bind] at h
    exact .inr (.inr (by cases h; rfl))
  · rw [fromDer_of_expectTag hx] at h
    rcases hv : Time.fromDerValue (peek input Tag.utcTime.toByte) v with ⟨t, rest⟩ | e' | _
    · rw [readAll_of_ok hv] at h
      split at h
      · simp at h
      · simp only [Outcome.err_bind, Outcome.err.injEq] at h
        exact .inr (.inl h.symm)
    · rw [readAll_of_err hv, Outcome.err_bind, Outcome.err.injEq] at h
      exact .inl (h ▸ (fromDerValue_okOr _ v).eq_err hv)
    · simp [readAll, hv] at h

theorem fromDer_errors_whole_input :
    Time.fromDer (fun input _ => .ok (input, [])) [0x31] = .err .badDerTime ∧
      (Error.badDerTime = .badDerTime ∨ Error.badDerTime = .trailingData Time.typeId ∨
        (Except.ok ([0x31], []) : Except Error (List UInt8 × List UInt8)) = .error .badDerTime) :=
  ⟨by decide, fromDer_errors (fun input _ => .ok (input, [])) [0x31] .badDerTime (by decide)⟩

end Webpki
