import Mathlib.Data.Nat.Digits.Defs
import Mathlib.Tactic.Common

/-!
# Little-endian words

The value of a byte string as a little-endian number.  Byte strings of one
length are determined by their values, so comparing two words of the same width
is the same as comparing the bytes they were loaded from.
-/

namespace LittleEndian

/-- The number whose base-256 digits, least significant first, are the bytes. -/
def value (bytes : List UInt8) : ℕ :=
  Nat.ofDigits 256 (bytes.map UInt8.toNat)

theorem digit_lt {bytes : List UInt8} : ∀ digit ∈ bytes.map UInt8.toNat, digit < 256 := by
  intro digit digit_mem
  rcases List.mem_map.mp digit_mem with ⟨byte, -, rfl⟩
  exact byte.toNat_lt

theorem value_lt (bytes : List UInt8) : value bytes < 256 ^ bytes.length := by
  have digits : ∀ digit ∈ bytes.map UInt8.toNat, digit < 256 := digit_lt
  simpa [value] using Nat.ofDigits_lt_base_pow_length (by omega) digits

theorem value_injective {left right : List UInt8} (sameLength : left.length = right.length)
    (sameValue : value left = value right) : left = right := by
  have digits := Nat.ofDigits_inj_of_len_eq (by omega) (by simpa using sameLength)
    digit_lt digit_lt sameValue
  exact (List.map_inj_right fun _ _ => UInt8.toNat_inj.mp).mp digits

end LittleEndian
