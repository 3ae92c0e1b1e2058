import Mathlib.Data.List.Basic
import Mathlib.Tactic.Common

/-!
# First claims win

Claims of keys are made one after the other; a claim wins if its key has not been
claimed before, and the first claim of a key determines the value of the key.
This is the purpose of a table which only ever inserts absent keys, stated
without the table.
-/

namespace FirstClaim

/-- An attempt to bind a key to a value, and whether it won. -/
structure Claim (Key Value : Type) where
  key : Key
  value : Value
  won : Bool

variable {Key Value : Type}

/-- A claim wins exactly when no earlier one has the same key. -/
def Fair (claims : List (Claim Key Value)) : Prop :=
  ∀ before claim after, claims = before ++ claim :: after →
    (claim.won = true ↔ ∀ earlier ∈ before, earlier.key ≠ claim.key)

theorem fair_nil : Fair ([] : List (Claim Key Value)) := by
  intro before claim after split
  simp at split

theorem Fair.append_singleton {claims : List (Claim Key Value)} {claim : Claim Key Value}
    (fair : Fair claims)
    (last : claim.won = true ↔ ∀ earlier ∈ claims, earlier.key ≠ claim.key) :
    Fair (claims ++ [claim]) := by
  intro before other after split
  rcases List.eq_nil_or_concat after with rfl | ⟨shorter, final, rfl⟩
  · rcases List.append_inj' split rfl with ⟨rfl, same⟩
    simp only [List.cons.injEq, and_true] at same
    exact same ▸ last
  · rw [List.concat_eq_append, ← List.cons_append, ← List.append_assoc] at split
    exact fair before other shorter (List.append_inj' split rfl).1

/-- A claimed key has a first claim, which has won, and no other claim of the
key has. -/
theorem Fair.exists_winner [DecidableEq Key] {claims : List (Claim Key Value)}
    (fair : Fair claims) {key : Key} (claimed : ∃ claim ∈ claims, claim.key = key) :
    ∃ before winner after, claims = before ++ winner :: after ∧ winner.key = key ∧
      winner.won = true ∧ ∀ other ∈ before ++ after, other.key = key → other.won = false := by
  rcases claimed with ⟨claim, claim_mem, claim_key⟩
  have found : (claims.find? fun other => decide (other.key = key)).isSome := by
    rw [List.find?_isSome]
    exact ⟨claim, claim_mem, by simpa using claim_key⟩
  rcases Option.isSome_iff_exists.mp found with ⟨winner, winner_eq⟩
  rcases List.find?_eq_some_iff_append.mp winner_eq with ⟨winner_key, before, after, rfl, first⟩
  simp only [decide_eq_true_eq] at winner_key
  have unclaimed : ∀ earlier ∈ before, earlier.key ≠ key := by
    intro earlier earlier_mem
    simpa using first earlier earlier_mem
  refine ⟨before, winner, after, rfl, winner_key, ?_, ?_⟩
  · exact (fair before winner after rfl).mpr (winner_key ▸ unclaimed)
  · intro other other_mem other_key
    rcases List.mem_append.mp other_mem with earlier | later
    · exact absurd other_key (unclaimed other earlier)
    · rcases List.append_of_mem later with ⟨left, right, rfl⟩
      by_contra won
      have fresh := (fair (before ++ winner :: left) other right (by simp)).mp (by simpa using won)
      exact fresh winner (by simp) (winner_key.trans other_key.symm)

end FirstClaim
