import Mathlib.Data.List.GetD
import Mathlib.Tactic.Common

/-!
# Byte memory

A memory is a function from addresses to bytes.  `store` writes a byte string to
consecutive addresses and `load` reads one back; a load sees the last store to
the same addresses, and no store to other ones.
-/

/-- The contents of an address space. -/
abbrev Memory := ℕ → UInt8

namespace Memory

/-- Write a byte string to the addresses from `base` on. -/
def store (memory : Memory) (base : ℕ) (bytes : List UInt8) : Memory := fun address =>
  if base ≤ address then bytes.getD (address - base) (memory address) else memory address

/-- Read `length` bytes from the addresses from `base` on. -/
def load (memory : Memory) (base length : ℕ) : List UInt8 :=
  (List.range length).map fun offset => memory (base + offset)

@[simp]
theorem load_length (memory : Memory) (base length : ℕ) :
    (memory.load base length).length = length := by
  simp [load]

theorem store_of_outside {memory : Memory} {base address : ℕ} {bytes : List UInt8}
    (outside : address < base ∨ base + bytes.length ≤ address) :
    memory.store base bytes address = memory address := by
  rw [store]
  rcases outside with below | above
  · rw [if_neg (by omega)]
  · rw [if_pos (by omega), List.getD_eq_default _ _ (by omega)]

theorem load_congr {left right : Memory} {base length : ℕ}
    (agree : ∀ address, base ≤ address → address < base + length → left address = right address) :
    left.load base length = right.load base length := by
  apply List.map_congr_left
  intro offset offset_mem
  rw [List.mem_range] at offset_mem
  exact agree _ (by omega) (by omega)

@[simp]
theorem load_store (memory : Memory) (base : ℕ) (bytes : List UInt8) :
    (memory.store base bytes).load base bytes.length = bytes := by
  apply List.ext_getElem
  · simp
  · intro index inLoad inBytes
    simp [load, store, List.getD_eq_getElem?_getD, inBytes]

theorem load_store_of_disjoint {memory : Memory} {base length other : ℕ} {bytes : List UInt8}
    (disjoint : base + length ≤ other ∨ other + bytes.length ≤ base) :
    (memory.store other bytes).load base length = memory.load base length := by
  apply load_congr
  intro address lower upper
  exact store_of_outside (by omega)

/-- Write several byte strings, each to its own address. -/
def storeAll (memory : Memory) (pieces : List (ℕ × List UInt8)) : Memory :=
  pieces.foldl (fun memory piece => memory.store piece.1 piece.2) memory

/-- The addresses of two pieces of memory are different. -/
def Apart (left right : ℕ × List UInt8) : Prop :=
  left.1 + left.2.length ≤ right.1 ∨ right.1 + right.2.length ≤ left.1

theorem load_storeAll_of_apart {memory : Memory} {piece : ℕ × List UInt8}
    {pieces : List (ℕ × List UInt8)} (apart : ∀ other ∈ pieces, Apart piece other) :
    (memory.storeAll pieces).load piece.1 piece.2.length =
      memory.load piece.1 piece.2.length := by
  induction pieces generalizing memory with
  | nil => rfl
  | cons other pieces ih =>
      have first := apart other List.mem_cons_self
      have rest (later : ℕ × List UInt8) (later_mem : later ∈ pieces) : Apart piece later :=
        apart later (List.mem_cons_of_mem _ later_mem)
      exact (ih rest).trans (load_store_of_disjoint first)

theorem load_storeAll {memory : Memory} {pieces : List (ℕ × List UInt8)}
    (apart : pieces.Pairwise Apart) {piece : ℕ × List UInt8} (piece_mem : piece ∈ pieces) :
    (memory.storeAll pieces).load piece.1 piece.2.length = piece.2 := by
  induction pieces generalizing memory with
  | nil => contradiction
  | cons first pieces ih =>
      rw [List.pairwise_cons] at apart
      rcases List.mem_cons.mp piece_mem with rfl | later
      · exact (load_storeAll_of_apart apart.1).trans (load_store memory piece.1 piece.2)
      · exact ih apart.2 later

end Memory
