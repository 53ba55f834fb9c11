import Tanssi.PooledStaking.Pallet

/-! `MulDiv` of `traits.rs`: `x.mul_div(a, b)` for each unsigned type, computed in a type
twice as wide. Each `impl_mul_div!($type, $bigger)` is `implMulDiv` at the two widths,
with `into` the zero extension, `*` and `/` the wide type's own, and `try_into` the check
that the quotient fits back. `U256` of `sp_core` is taken to be exact 256-bit arithmetic.
What `mul_div` is for is `exactMulDiv`: the floor of the rational `x * a / b`, when it
fits. The pallet's `mulDiv` on balances is the `u128` instance. -/
namespace Tanssi.PooledStaking

/-- `OverflowError`. -/
structure OverflowError where
  deriving DecidableEq, Repr

/-- `try_into().map_err(|_| OverflowError)` from a wide type to a `width`-bit one. -/
def tryInto (width : Nat) {bigger : Nat} (r : BitVec bigger) : Except OverflowError (BitVec width) :=
  if r.toNat < 2 ^ width then .ok (r.setWidth width) else .error ⟨⟩

/-- `impl_mul_div!($type, $bigger)` for a `width`-bit type and a `bigger`-bit one. -/
def implMulDiv (width bigger : Nat) (self a b : BitVec width) : Except OverflowError (BitVec width) :=
  if b = 0 then .error ⟨⟩
  else if self = 0 then .ok 0
  else
    let s : BitVec bigger := self.setWidth bigger
    let a : BitVec bigger := a.setWidth bigger
    let b : BitVec bigger := b.setWidth bigger
    let r : BitVec bigger := s * a / b
    tryInto width r

namespace MulDiv

def u8 : BitVec 8 → BitVec 8 → BitVec 8 → Except OverflowError (BitVec 8) := implMulDiv 8 16
def u16 : BitVec 16 → BitVec 16 → BitVec 16 → Except OverflowError (BitVec 16) := implMulDiv 16 32
def u32 : BitVec 32 → BitVec 32 → BitVec 32 → Except OverflowError (BitVec 32) := implMulDiv 32 64
def u64 : BitVec 64 → BitVec 64 → BitVec 64 → Except OverflowError (BitVec 64) := implMulDiv 64 128
def u128 : BitVec 128 → BitVec 128 → BitVec 128 → Except OverflowError (BitVec 128) := implMulDiv 128 256

end MulDiv

def exactMulDiv (width : Nat) (x a b : BitVec width) : Except OverflowError (BitVec width) :=
  if b.toNat ≠ 0 ∧ ⌊(x.toNat * a.toNat : ℚ) / b.toNat⌋₊ < 2 ^ width then
    .ok (BitVec.ofNat width ⌊(x.toNat * a.toNat : ℚ) / b.toNat⌋₊)
  else .error ⟨⟩

/- Widening. A value zero-extended to at least its width keeps its value, and the product
of two values zero-extended to twice their width is exact. -/

section Widening
variable {width bigger : Nat}

theorem setWidthToNat (wider : width ≤ bigger) (x : BitVec width) : (x.setWidth bigger).toNat = x.toNat := by
  rw [BitVec.toNat_setWidth]
  exact Nat.mod_eq_of_lt (lt_of_lt_of_le x.isLt (Nat.pow_le_pow_right (by decide) wider))

theorem widenedProduct (wider : 2 * width ≤ bigger) (x a : BitVec width) :
    (x.setWidth bigger * a.setWidth bigger).toNat = x.toNat * a.toNat := by
  have fits : x.toNat * a.toNat < 2 ^ bigger := by
    calc x.toNat * a.toNat < 2 ^ width * 2 ^ width := Nat.mul_lt_mul'' x.isLt a.isLt
      _ = 2 ^ (2 * width) := by rw [← Nat.pow_add, Nat.two_mul]
      _ ≤ 2 ^ bigger := Nat.pow_le_pow_right (by decide) wider
  rw [BitVec.toNat_mul, setWidthToNat (by omega), setWidthToNat (by omega), Nat.mod_eq_of_lt fits]

theorem widenedQuotient (wider : 2 * width ≤ bigger) (x a b : BitVec width) :
    (x.setWidth bigger * a.setWidth bigger / b.setWidth bigger).toNat = x.toNat * a.toNat / b.toNat := by
  rw [BitVec.toNat_udiv, widenedProduct wider, setWidthToNat (by omega)]

end Widening

theorem exactMulDivNat (width : Nat) (x a b : BitVec width) :
    exactMulDiv width x a b =
      if b.toNat ≠ 0 ∧ x.toNat * a.toNat / b.toNat < 2 ^ width then
        .ok (BitVec.ofNat width (x.toNat * a.toNat / b.toNat))
      else .error ⟨⟩ := by
  have floored : ⌊(x.toNat * a.toNat : ℚ) / b.toNat⌋₊ = x.toNat * a.toNat / b.toNat := by
    have exact : ⌊((x.toNat * a.toNat : ℕ) : ℚ) / (b.toNat : ℚ)⌋₊ = x.toNat * a.toNat / b.toNat :=
      Nat.floor_div_eq_div _ _
    rw [← exact, Nat.cast_mul]
  rw [exactMulDiv, floored]

theorem implMulDivExact {width bigger : Nat} (wider : 2 * width ≤ bigger) (x a b : BitVec width) :
    implMulDiv width bigger x a b = exactMulDiv width x a b := by
  rw [exactMulDivNat]
  unfold implMulDiv
  by_cases zero : b = 0
  · simp [zero]
  · have divisor : b.toNat ≠ 0 := fun none => zero (BitVec.eq_of_toNat_eq (by simpa using none))
    rw [if_neg zero]
    by_cases empty : x = 0
    · -- the early return: zero times anything is zero, which fits
      subst empty
      simp [divisor]
    · rw [if_neg empty]
      simp only [tryInto, widenedQuotient wider, divisor, ne_eq, not_false_eq_true, true_and]
      split
      · congr 1
        apply BitVec.eq_of_toNat_eq
        rw [BitVec.toNat_setWidth, widenedQuotient wider, BitVec.toNat_ofNat]
      · rfl

/- The source's own test, at the top of `u128`. -/
example : MulDiv.u128 (BitVec.ofNat 128 (2 ^ 128 - 1)) 2 2 = .ok (BitVec.ofNat 128 (2 ^ 128 - 1)) ∧
    MulDiv.u128 (BitVec.ofNat 128 (2 ^ 128 - 1)) 4 2 = .error ⟨⟩ := by decide

theorem mulDivExact :
    (∀ x a b : BitVec 8, MulDiv.u8 x a b = exactMulDiv 8 x a b ∧
      (x.setWidth 16 * a.setWidth 16).toNat = x.toNat * a.toNat) ∧
    (∀ x a b : BitVec 16, MulDiv.u16 x a b = exactMulDiv 16 x a b ∧
      (x.setWidth 32 * a.setWidth 32).toNat = x.toNat * a.toNat) ∧
    (∀ x a b : BitVec 32, MulDiv.u32 x a b = exactMulDiv 32 x a b ∧
      (x.setWidth 64 * a.setWidth 64).toNat = x.toNat * a.toNat) ∧
    (∀ x a b : BitVec 64, MulDiv.u64 x a b = exactMulDiv 64 x a b ∧
      (x.setWidth 128 * a.setWidth 128).toNat = x.toNat * a.toNat) ∧
    (∀ x a b : BitVec 128, MulDiv.u128 x a b = exactMulDiv 128 x a b ∧
      (x.setWidth 256 * a.setWidth 256).toNat = x.toNat * a.toNat) :=
  ⟨fun x a b => ⟨implMulDivExact (by decide) x a b, widenedProduct (by decide) x a⟩,
    fun x a b => ⟨implMulDivExact (by decide) x a b, widenedProduct (by decide) x a⟩,
    fun x a b => ⟨implMulDivExact (by decide) x a b, widenedProduct (by decide) x a⟩,
    fun x a b => ⟨implMulDivExact (by decide) x a b, widenedProduct (by decide) x a⟩,
    fun x a b => ⟨implMulDivExact (by decide) x a b, widenedProduct (by decide) x a⟩⟩

theorem mulDivOfU128 {self a b : Nat} (small : self < balanceBound) (smallA : a < balanceBound)
    (smallB : b < balanceBound) :
    mulDiv self a b = Except.mapError (fun _ => .module .mathOverflow)
      (BitVec.toNat <$> MulDiv.u128 (BitVec.ofNat 128 self) (BitVec.ofNat 128 a) (BitVec.ofNat 128 b)) := by
  have read : ∀ n, n < balanceBound → (BitVec.ofNat 128 n).toNat = n := fun n lt => by
    rw [BitVec.toNat_ofNat]
    exact Nat.mod_eq_of_lt lt
  rw [MulDiv.u128, implMulDivExact (by decide), exactMulDivNat, read self small, read a smallA, read b smallB]
  unfold mulDiv
  by_cases zero : b = 0
  · simp [zero, throw, throwThe, MonadExceptOf.throw, Except.mapError]
  · by_cases empty : self = 0
    · simp [zero, empty, pure, Except.pure, Except.mapError, Except.map, Functor.map]
    · rw [if_neg zero, if_neg empty]
      by_cases fits : self * a / b < balanceBound
      · rw [if_pos fits, if_pos (⟨zero, fits⟩ : b ≠ 0 ∧ self * a / b < 2 ^ 128)]
        show Except.ok (self * a / b) = Except.ok (BitVec.ofNat 128 (self * a / b)).toNat
        rw [read _ fits]
      · rw [if_neg fits, if_neg fun both : b ≠ 0 ∧ self * a / b < 2 ^ 128 => fits both.2]
        rfl

example :
    mulDiv (2 ^ 128 - 1) 2 4 = Except.mapError (fun _ => .module .mathOverflow)
      (BitVec.toNat <$> MulDiv.u128 (BitVec.ofNat 128 (2 ^ 128 - 1)) (BitVec.ofNat 128 2) (BitVec.ofNat 128 4)) :=
  mulDivOfU128 (by decide) (by decide) (by decide)

end Tanssi.PooledStaking
