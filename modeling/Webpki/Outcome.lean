/-
# Webpki.Outcome — what a call of the crate's Rust code can do, and checked `u64` arithmetic.

A Rust function of the crate returns `Ok`, returns `Err` (directly or through `?`), or panics.
`Outcome` keeps the three apart, so that "never panics" is a statement about the model and not an
assumption of it. Every `u64` operation of the modelled code is checked the way Rust's overflow
checks do it: `checkedAdd`, `checkedSub` and `checkedMul` panic outside `0 ..= u64::MAX`, and
`debugAssert` and `unreachable!()` panic as well. `u64` values are `Nat`s; the checks keep every
value the code computes inside the range, and `checkedAddU64` hands that bound on with the sum, for
the one addition whose result is stored as a `u64` (the seconds of a `Time`).

`OkOr e x` says that `x` returns or fails with exactly `e`: it is how the parser's "every failure
is `BadDerTime`, and nothing panics" is stated and threaded through `>>=` (`OkOr.bind`).
-/
import Webpki.Error
import Mathlib.Algebra.Group.Nat.Basic

namespace Webpki

/-- The outcome of a call of the crate's Rust code. -/
inductive Outcome (α : Type) where
  | ok (a : α)
  | err (e : Error)
  | panic
  deriving DecidableEq, Repr

namespace Outcome

variable {α β : Type}

/-- Sequencing: `?` propagates an `Err`, and a panic propagates as a panic. -/
def bind (x : Outcome α) (f : α → Outcome β) : Outcome β :=
  match x with
  | ok a => f a
  | err e => err e
  | panic => panic

instance : Monad Outcome where
  pure := ok
  bind := bind

@[simp] theorem pure_eq_ok (a : α) : (pure a : Outcome α) = ok a := rfl
@[simp] theorem ok_bind (a : α) (f : α → Outcome β) : ok a >>= f = f a := rfl
@[simp] theorem err_bind (e : Error) (f : α → Outcome β) : err e >>= f = err e := rfl
@[simp] theorem panic_bind (f : α → Outcome β) : (panic : Outcome α) >>= f = panic := rfl

theorem bind_eq_ok {x : Outcome α} {f : α → Outcome β} {b : β} :
    x >>= f = ok b ↔ ∃ a, x = ok a ∧ f a = ok b := by
  cases x <;> simp

/-- A call whose returned value is paired with a fixed rest. -/
theorem bind_pair_eq_ok {γ : Type} {x : Outcome α} {a : α} {c c' : γ} :
    (x >>= fun a => pure (a, c)) = ok (a, c') ↔ x = ok a ∧ c' = c := by
  cases x <;> simp [eq_comm]

@[simp] theorem map_ok (f : α → β) (a : α) : f <$> ok a = ok (f a) := rfl
@[simp] theorem map_err (f : α → β) (e : Error) : f <$> (err e : Outcome α) = err e := rfl
@[simp] theorem map_panic (f : α → β) : f <$> (panic : Outcome α) = panic := rfl

theorem map_eq_ok {f : α → β} {x : Outcome α} {b : β} : f <$> x = ok b ↔ ∃ a, x = ok a ∧ f a = b := by
  cases x <;> simp

/-- `map_err(|_| e)` on a reader call that fails with `EndOfInput` (`none`). -/
def ofOption (e : Error) : Option α → Outcome α
  | some a => ok a
  | none => err e

/-- A call that cannot panic, returning a `Result`. -/
def ofExcept : Except Error α → Outcome α
  | .ok a => ok a
  | .error e => err e

/-- The returned value, or `d`. -/
def getD (x : Outcome α) (d : α) : α :=
  match x with
  | ok a => a
  | _ => d

@[simp] theorem getD_ok (a d : α) : (ok a).getD d = a := rfl

/-- `x` returns, or fails with exactly `e`: it never panics and never fails another way. -/
def OkOr (e : Error) : Outcome α → Prop
  | ok _ => True
  | err e' => e' = e
  | panic => False

theorem OkOr.err' (e : Error) : (err e : Outcome α).OkOr e := rfl

theorem OkOr.ne_panic {e : Error} {x : Outcome α} (h : x.OkOr e) : x ≠ panic := by
  rintro rfl; exact h

theorem OkOr.eq_err {e e' : Error} {x : Outcome α} (h : x.OkOr e) (hx : x = err e') : e' = e := by
  subst hx; exact h

/-- `OkOr` is kept by `>>=` when every continuation that can run keeps it. -/
theorem OkOr.bind {e : Error} {x : Outcome α} {f : α → Outcome β} (hx : x.OkOr e)
    (hf : ∀ a, x = ok a → (f a).OkOr e) : (x >>= f).OkOr e := by
  cases x with
  | ok a => exact hf a rfl
  | err e' => exact hx
  | panic => exact hx

/-- A map of the returned value fails and panics as the call does. -/
theorem OkOr.map_iff {e : Error} {f : α → β} {x : Outcome α} : (f <$> x).OkOr e ↔ x.OkOr e := by
  cases x <;> rfl

theorem OkOr.ite {e : Error} {p : Prop} [Decidable p] {x y : Outcome α} (hx : p → x.OkOr e)
    (hy : ¬p → y.OkOr e) : (if p then x else y).OkOr e := by
  split_ifs with h
  · exact hx h
  · exact hy h

end Outcome

/-! ## Checked `u64` arithmetic -/

/-- `u64::MAX`. -/
def u64Max : Nat := 18446744073709551615

theorem u64Max_eq : u64Max = 2 ^ 64 - 1 := rfl

/-- `a + b` on `u64`: panics on overflow, and the sum carries the bound the check gives it. -/
def checkedAddU64 (a b : Nat) : Outcome {n : Nat // n < 2 ^ 64} :=
  if h : a + b ≤ u64Max then .ok ⟨a + b, by rw [u64Max_eq] at h; omega⟩ else .panic

/-- `a + b` on `u64`: panics on overflow. -/
def checkedAdd (a b : Nat) : Outcome Nat := Subtype.val <$> checkedAddU64 a b

/-- `a - b` on an unsigned integer: panics on underflow. -/
def checkedSub (a b : Nat) : Outcome Nat := if b ≤ a then .ok (a - b) else .panic

/-- `a * b` on `u64`: panics on overflow. -/
def checkedMul (a b : Nat) : Outcome Nat := if a * b ≤ u64Max then .ok (a * b) else .panic

/-- `debug_assert!(p)`. -/
def debugAssert (p : Prop) [Decidable p] : Outcome Unit := if p then .ok () else .panic

theorem checkedAddU64_of_lt {a b : Nat} (h : a + b < 2 ^ 64) : checkedAddU64 a b = .ok ⟨a + b, h⟩ :=
  dif_pos (by rw [u64Max_eq]; omega)

theorem checkedAddU64_of_not_lt {a b : Nat} (h : ¬a + b < 2 ^ 64) : checkedAddU64 a b = .panic :=
  dif_neg (by rw [u64Max_eq]; omega)

theorem checkedAdd_of_lt {a b : Nat} (h : a + b < 2 ^ 64) : checkedAdd a b = .ok (a + b) := by
  rw [checkedAdd, checkedAddU64_of_lt h]; rfl

theorem checkedSub_of_le {a b : Nat} (h : b ≤ a) : checkedSub a b = .ok (a - b) := if_pos h

theorem checkedMul_of_lt {a b : Nat} (h : a * b < 2 ^ 64) : checkedMul a b = .ok (a * b) :=
  if_pos (by rw [u64Max_eq]; omega)

theorem checkedAdd_eq_ok {a b c : Nat} : checkedAdd a b = .ok c ↔ a + b < 2 ^ 64 ∧ c = a + b := by
  by_cases h : a + b < 2 ^ 64
  · rw [checkedAdd_of_lt h, Outcome.ok.injEq, eq_comm, and_iff_right h]
  · rw [checkedAdd, checkedAddU64_of_not_lt h, Outcome.map_panic]
    exact ⟨nofun, fun hc => absurd hc.1 h⟩

theorem checkedMul_eq_ok {a b c : Nat} : checkedMul a b = .ok c ↔ a * b < 2 ^ 64 ∧ c = a * b := by
  unfold checkedMul; rw [u64Max_eq]; split_ifs <;> simp [eq_comm] <;> omega

theorem debugAssert_of {p : Prop} [Decidable p] (h : p) : debugAssert p = .ok () := if_pos h

/-! ## A checked step inside a `do` block: continue with the value, or panic -/

section Bind

variable {β : Type} (a b : Nat) (f : Nat → Outcome β)

theorem checkedAddU64_bind (f : {n : Nat // n < 2 ^ 64} → Outcome β) :
    checkedAddU64 a b >>= f = if h : a + b < 2 ^ 64 then f ⟨a + b, h⟩ else .panic := by
  by_cases h : a + b < 2 ^ 64
  · rw [checkedAddU64_of_lt h, dif_pos h]; rfl
  · rw [checkedAddU64_of_not_lt h, dif_neg h]; rfl

theorem checkedAdd_bind : checkedAdd a b >>= f = if a + b < 2 ^ 64 then f (a + b) else .panic := by
  by_cases h : a + b < 2 ^ 64
  · rw [checkedAdd_of_lt h, if_pos h]; rfl
  · rw [checkedAdd, checkedAddU64_of_not_lt h, if_neg h]; rfl

theorem checkedMul_bind : checkedMul a b >>= f = if a * b < 2 ^ 64 then f (a * b) else .panic := by
  unfold checkedMul; rw [u64Max_eq]; split_ifs <;> first | rfl | omega

theorem checkedSub_bind : checkedSub a b >>= f = if b ≤ a then f (a - b) else .panic := by
  unfold checkedSub; split_ifs <;> rfl

end Bind

end Webpki
