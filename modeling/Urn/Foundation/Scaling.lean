import Mathlib.Algebra.Order.Ring.Nat
import Mathlib.Data.Nat.Find

/-!
# Numbers in scaled units

A number is told in the smallest of the units `base ^ 0`, …, `base ^ last` in which
its integral part is within a limit, or in the largest of them.

* `exponent_of_le`, `exponent_succ` and `quotient_succ`: the unit and the integral
  part can be found by dividing by `base` again and again;
* `rounded_mono`: if the limit is `base` or one less, what is told is monotone, also
  where the unit changes.
-/

namespace Scaling

variable {limit base last n m k : ℕ}

/-- The unit keeps the integral part within the limit, or there is no larger one. -/
def Suffices (limit base last n k : ℕ) : Prop := n / base ^ k ≤ limit ∨ last ≤ k

instance : DecidablePred (Suffices limit base last n) := fun k =>
  inferInstanceAs (Decidable (n / base ^ k ≤ limit ∨ last ≤ k))

theorem exists_suffices (limit base last n : ℕ) : ∃ k, Suffices limit base last n k :=
  ⟨last, Or.inr le_rfl⟩

/-- The exponent of the smallest unit which suffices. -/
def exponent (limit base last n : ℕ) : ℕ := Nat.find (exists_suffices limit base last n)

/-- The integral part of the number in that unit. -/
def quotient (limit base last n : ℕ) : ℕ := n / base ^ exponent limit base last n

/-- The number which is told. -/
def rounded (limit base last n : ℕ) : ℕ :=
  quotient limit base last n * base ^ exponent limit base last n

theorem exponent_suffices (limit base last n : ℕ) :
    Suffices limit base last n (exponent limit base last n) :=
  Nat.find_spec (exists_suffices limit base last n)

theorem exponent_le_of_suffices (suffices_k : Suffices limit base last n k) :
    exponent limit base last n ≤ k :=
  Nat.find_min' _ suffices_k

theorem exponent_le (limit base last n : ℕ) : exponent limit base last n ≤ last :=
  exponent_le_of_suffices (Or.inr le_rfl)

theorem limit_lt_of_lt_exponent (below : k < exponent limit base last n) :
    limit < n / base ^ k := by
  have insufficient := Nat.find_min (exists_suffices limit base last n) below
  exact not_le.mp fun within => insufficient (Or.inl within)

theorem quotient_le_limit (notLast : exponent limit base last n < last) :
    quotient limit base last n ≤ limit :=
  (exponent_suffices limit base last n).resolve_right (not_le.mpr notLast)

/-! ## Repeated division -/

theorem exponent_of_le (within : n ≤ limit) : exponent limit base last n = 0 := by
  apply Nat.eq_zero_of_le_zero
  apply exponent_le_of_suffices
  left
  simpa using within

theorem exponent_zero (limit base n : ℕ) : exponent limit base 0 n = 0 :=
  Nat.eq_zero_of_le_zero (exponent_le limit base 0 n)

theorem quotient_of_exponent (isZero : exponent limit base last n = 0) :
    quotient limit base last n = n := by
  simp [quotient, isZero]

theorem suffices_succ :
    Suffices limit base (last + 1) n (k + 1) ↔ Suffices limit base last (n / base) k := by
  simp only [Suffices, pow_succ', Nat.div_div_eq_div_mul, Nat.add_le_add_iff_right]

theorem exponent_succ (above : limit < n) :
    exponent limit base (last + 1) n = exponent limit base last (n / base) + 1 := by
  apply le_antisymm
  · apply exponent_le_of_suffices
    exact suffices_succ.mpr (exponent_suffices limit base last (n / base))
  · have found := exponent_suffices limit base (last + 1) n
    cases exponent_eq : exponent limit base (last + 1) n with
    | zero =>
        have within : n ≤ limit := by simpa [exponent_eq, Suffices] using found
        omega
    | succ k =>
        rw [exponent_eq] at found
        have least := exponent_le_of_suffices (suffices_succ.mp found)
        omega

theorem quotient_succ (above : limit < n) :
    quotient limit base (last + 1) n = quotient limit base last (n / base) := by
  simp only [quotient, exponent_succ above, pow_succ', Nat.div_div_eq_div_mul]

/-! ## What is told -/

theorem exponent_mono (le : n ≤ m) : exponent limit base last n ≤ exponent limit base last m := by
  apply exponent_le_of_suffices
  rcases exponent_suffices limit base last m with within | isLast
  · left
    exact (Nat.div_le_div_right le).trans within
  · right
    exact isLast

/-- With a larger unit, at least one of the unit is told. -/
theorem pow_exponent_le_rounded (positive : 0 < base) (large : base ≤ limit + 1)
    (scaled : 0 < exponent limit base last n) :
    base ^ exponent limit base last n ≤ rounded limit base last n := by
  rcases Nat.exists_eq_add_one.mpr scaled with ⟨k, exponent_eq⟩
  have below : k < exponent limit base last n := by omega
  have above := limit_lt_of_lt_exponent below
  have enough : base ≤ n / base ^ k := by omega
  have one_le : 1 ≤ quotient limit base last n := by
    rw [quotient, exponent_eq, pow_succ, ← Nat.div_div_eq_div_mul]
    exact (Nat.one_le_div_iff positive).mpr enough
  exact Nat.le_mul_of_pos_left _ one_le

theorem rounded_mono (positive : 0 < base) (small : limit ≤ base) (large : base ≤ limit + 1)
    (le : n ≤ m) : rounded limit base last n ≤ rounded limit base last m := by
  rcases Nat.eq_or_lt_of_le (exponent_mono le : exponent limit base last n ≤ _) with
    same | larger
  · simp only [rounded, quotient, same]
    exact Nat.mul_le_mul_right _ (Nat.div_le_div_right le)
  · have notLast := larger.trans_le (exponent_le limit base last m)
    calc
      rounded limit base last n ≤ limit * base ^ exponent limit base last n :=
        Nat.mul_le_mul_right _ (quotient_le_limit notLast)
      _ ≤ base * base ^ exponent limit base last n := Nat.mul_le_mul_right _ small
      _ = base ^ (exponent limit base last n + 1) := (pow_succ' _ _).symm
      _ ≤ base ^ exponent limit base last m := Nat.pow_le_pow_right positive larger
      _ ≤ rounded limit base last m := pow_exponent_le_rounded positive large (by omega)

end Scaling
