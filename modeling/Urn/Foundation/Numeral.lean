import Mathlib.Algebra.Group.Int.Defs
import Mathlib.Algebra.Group.Nat.Defs
import Mathlib.Data.Int.Notation
import Mathlib.Data.List.TakeWhile
import Mathlib.Tactic.Common

/-!
# Numbers written in decimal

What the conversion functions of the C library read from a text: blanks, a sign,
and digits up to the first character which is none.  `read_eq_some_iff` gives the
grammar of the texts which have a number.
-/

namespace Numeral

/-- `isspace` in the C locale. -/
def isBlank (c : Char) : Bool :=
  decide (c.toNat = 32 ∨ 9 ≤ c.toNat ∧ c.toNat ≤ 13)

def value (digits : List Char) : ℕ :=
  digits.foldl (fun total digit => 10 * total + (digit.toNat - 48)) 0

inductive Sign
  | plus
  | minus
deriving DecidableEq

namespace Sign

def apply : Sign → ℕ → ℤ
  | plus, magnitude => magnitude
  | minus, magnitude => -magnitude

/-- The sign as it is written before the digits. -/
def Written : Sign → List Char → Prop
  | plus, mark => mark = [] ∨ mark = ['+']
  | minus, mark => mark = ['-']

end Sign

def takeSign : List Char → Sign × List Char
  | '-' :: rest => (.minus, rest)
  | '+' :: rest => (.plus, rest)
  | text => (.plus, text)

/-- The sign and the magnitude of the number at the start of the text. -/
def read (text : List Char) : Option (Sign × ℕ) :=
  let signed := takeSign (text.dropWhile isBlank)
  let digits := signed.2.takeWhile Char.isDigit
  if digits = [] then none else some (signed.1, value digits)

/-- A non-empty string of digits. -/
def IsNumber (text : List Char) : Prop := text ≠ [] ∧ ∀ c ∈ text, c.isDigit = true

instance (text : List Char) : Decidable (IsNumber text) :=
  haveI : Decidable (∀ c ∈ text, c.isDigit = true) := List.decidableBAll _ text
  inferInstanceAs (Decidable (text ≠ [] ∧ ∀ c ∈ text, c.isDigit = true))

/-- The text starts with a number: blanks, a sign, digits, and a rest which starts with none. -/
def Reads (text : List Char) (sign : Sign) (magnitude : ℕ) : Prop :=
  ∃ blanks mark digits rest, text = blanks ++ (mark ++ (digits ++ rest)) ∧
    (∀ c ∈ blanks, isBlank c = true) ∧ sign.Written mark ∧ IsNumber digits ∧
    (∀ c ∈ rest.head?, c.isDigit = false) ∧ magnitude = value digits

theorem not_isBlank_of_isDigit {c : Char} (digit : c.isDigit = true) : isBlank c = false := by
  simp only [Char.isDigit, ge_iff_le, Bool.and_eq_true, decide_eq_true_eq, UInt32.le_iff_toNat_le]
    at digit
  have lower : 48 ≤ c.toNat := digit.1
  simp only [isBlank, decide_eq_false_iff_not]
  omega

theorem dropWhile_isBlank {blanks rest : List Char} (blank : ∀ c ∈ blanks, isBlank c = true)
    (ended : ∀ c ∈ rest.head?, isBlank c = false) :
    (blanks ++ rest).dropWhile isBlank = rest := by
  rw [List.dropWhile_append_of_pos blank]
  cases rest with
  | nil => rfl
  | cons c rest =>
      apply List.dropWhile_cons_of_neg
      simpa using ended c rfl

theorem takeWhile_isDigit {digits rest : List Char} (all : ∀ c ∈ digits, c.isDigit = true)
    (ended : ∀ c ∈ rest.head?, c.isDigit = false) :
    (digits ++ rest).takeWhile Char.isDigit = digits := by
  rw [List.takeWhile_append_of_pos all]
  cases rest with
  | nil => simp
  | cons c rest =>
      have stops : c.isDigit = false := ended c rfl
      simp [stops]

theorem takeSign_written {sign : Sign} {mark digits rest : List Char} (written : sign.Written mark)
    (number : IsNumber digits) :
    takeSign (mark ++ (digits ++ rest)) = (sign, digits ++ rest) := by
  cases sign with
  | minus =>
      have mark_eq : mark = ['-'] := written
      subst mark_eq
      rfl
  | plus =>
      rcases written with rfl | rfl
      · cases digits with
        | nil => exact absurd rfl number.1
        | cons c digits =>
            have digit := number.2 c List.mem_cons_self
            simp only [List.nil_append, List.cons_append]
            unfold takeSign
            split
            · simp_all
            · simp_all
            · rfl
      · rfl

theorem takeSign_spec (text : List Char) :
    ∃ mark, (takeSign text).1.Written mark ∧ text = mark ++ (takeSign text).2 := by
  unfold takeSign
  split
  · exact ⟨['-'], rfl, rfl⟩
  · exact ⟨['+'], Or.inr rfl, rfl⟩
  · exact ⟨[], Or.inl rfl, rfl⟩

theorem head_notBlank {sign : Sign} {mark digits rest : List Char} (written : sign.Written mark)
    (number : IsNumber digits) :
    ∀ c ∈ (mark ++ (digits ++ rest)).head?, isBlank c = false := by
  intro c head
  cases sign with
  | minus =>
      have mark_eq : mark = ['-'] := written
      subst mark_eq
      simp only [List.cons_append, List.head?_cons, Option.mem_def, Option.some.injEq] at head
      subst head
      decide
  | plus =>
      rcases written with rfl | rfl
      · cases digits with
        | nil => exact absurd rfl number.1
        | cons first digits =>
            have first_eq : first = c := by simpa using head
            subst first_eq
            exact not_isBlank_of_isDigit (number.2 first List.mem_cons_self)
      · simp only [List.cons_append, List.head?_cons, Option.mem_def, Option.some.injEq] at head
        subst head
        decide

theorem read_of_reads {text : List Char} {sign : Sign} {magnitude : ℕ}
    (reads : Reads text sign magnitude) : read text = some (sign, magnitude) := by
  rcases reads with ⟨blanks, mark, digits, rest, rfl, blank, written, number, ended, rfl⟩
  have dropped : (blanks ++ (mark ++ (digits ++ rest))).dropWhile isBlank =
      mark ++ (digits ++ rest) := dropWhile_isBlank blank (head_notBlank written number)
  have signed : takeSign (mark ++ (digits ++ rest)) = (sign, digits ++ rest) :=
    takeSign_written written number
  have taken := takeWhile_isDigit number.2 ended
  simp only [read, dropped, signed, taken, if_neg number.1]

theorem reads_of_read {text : List Char} {sign : Sign} {magnitude : ℕ}
    (isRead : read text = some (sign, magnitude)) : Reads text sign magnitude := by
  simp only [read] at isRead
  split at isRead
  · contradiction
  · rename_i digits_ne
    rcases takeSign_spec (text.dropWhile isBlank) with ⟨mark, written, split_eq⟩
    simp only [Option.some.injEq, Prod.mk.injEq] at isRead
    rcases isRead with ⟨rfl, rfl⟩
    refine ⟨text.takeWhile isBlank, mark,
      (takeSign (text.dropWhile isBlank)).2.takeWhile Char.isDigit,
      (takeSign (text.dropWhile isBlank)).2.dropWhile Char.isDigit, ?_, ?_, written, ?_, ?_, rfl⟩
    · rw [List.takeWhile_append_dropWhile, ← split_eq, List.takeWhile_append_dropWhile]
    · intro c c_mem
      exact List.mem_takeWhile_imp c_mem
    · refine ⟨digits_ne, ?_⟩
      intro c c_mem
      exact List.mem_takeWhile_imp c_mem
    · intro c head
      have stopped := List.head?_dropWhile_not Char.isDigit (takeSign (text.dropWhile isBlank)).2
      rw [Option.mem_def.mp head] at stopped
      simpa using stopped

theorem read_eq_some_iff {text : List Char} {sign : Sign} {magnitude : ℕ} :
    read text = some (sign, magnitude) ↔ Reads text sign magnitude :=
  ⟨reads_of_read, read_of_reads⟩

/-! ## Numbers without anything around them -/

/-- The text is a sign and a number. -/
def IsDecimal (text : List Char) (number : ℤ) : Prop :=
  ∃ sign mark digits, text = mark ++ digits ∧ Sign.Written sign mark ∧ IsNumber digits ∧
    number = sign.apply (value digits)

theorem IsNumber.read {text : List Char} (number : IsNumber text) :
    read text = some (.plus, value text) := by
  apply read_of_reads
  exact ⟨[], [], text, [], by simp, by simp, Or.inl rfl, number, by simp, rfl⟩

theorem IsDecimal.read {text : List Char} {number : ℤ} (decimal : IsDecimal text number) :
    ∃ sign magnitude, Numeral.read text = some (sign, magnitude) ∧
      number = sign.apply magnitude := by
  rcases decimal with ⟨sign, mark, digits, rfl, written, isNumber, rfl⟩
  refine ⟨sign, value digits, read_of_reads ?_, rfl⟩
  exact ⟨[], mark, digits, [], by simp, by simp, written, isNumber, by simp, rfl⟩

theorem IsNumber.isDecimal {text : List Char} (number : IsNumber text) :
    IsDecimal text (value text) :=
  ⟨.plus, [], text, rfl, Or.inl rfl, number, rfl⟩

/-! ## The conversion functions -/

inductive ConversionError
  | invalidArgument
  | outOfRange
deriving DecidableEq

/-- `std::stoull`, where `unsigned long long` has 64 bits. -/
def stoull (text : List Char) : Except ConversionError ℕ :=
  match read text with
  | none => .error .invalidArgument
  | some (sign, magnitude) =>
      if 2 ^ 64 ≤ magnitude then
        .error .outOfRange
      else
        match sign with
        | .plus => .ok magnitude
        | .minus => .ok ((2 ^ 64 - magnitude) % 2 ^ 64)

/-- `strtol` to base ten, where `long` has 64 bits. -/
def strtol (text : List Char) : ℤ :=
  match read text with
  | none => 0
  | some (sign, magnitude) => max (-2 ^ 63) (min (2 ^ 63 - 1) (sign.apply magnitude))

/-- `atoi`: the result of `strtol` as an `int` of 32 bits. -/
def atoi (text : List Char) : ℤ := (strtol text).bmod (2 ^ 32)

theorem stoull_eq_ok_iff {text : List Char} {number : ℕ} :
    stoull text = .ok number ↔ ∃ sign magnitude, Reads text sign magnitude ∧
      magnitude < 2 ^ 64 ∧ (number : ℤ) = sign.apply magnitude % 2 ^ 64 := by
  constructor
  · intro converted
    simp only [stoull] at converted
    split at converted
    · contradiction
    · rename_i sign magnitude isRead
      refine ⟨sign, magnitude, reads_of_read isRead, ?_⟩
      split at converted
      · contradiction
      · rename_i small
        cases sign with
        | plus =>
            simp only [Except.ok.injEq] at converted
            simp only [Sign.apply]
            omega
        | minus =>
            simp only [Except.ok.injEq] at converted
            simp only [Sign.apply]
            omega
  · rintro ⟨sign, magnitude, reads, small, number_eq⟩
    have notLarge : ¬2 ^ 64 ≤ magnitude := by omega
    simp only [stoull, read_of_reads reads, if_neg notLarge]
    cases sign with
    | plus =>
        simp only [Sign.apply] at number_eq
        simp only [Except.ok.injEq]
        omega
    | minus =>
        simp only [Sign.apply] at number_eq
        simp only [Except.ok.injEq]
        omega

theorem IsNumber.stoull {text : List Char} (number : IsNumber text)
    (small : value text < 2 ^ 64) : stoull text = .ok (value text) := by
  have notLarge : ¬2 ^ 64 ≤ value text := by omega
  simp only [Numeral.stoull, number.read, if_neg notLarge]

theorem IsDecimal.atoi {text : List Char} {number : ℤ} (decimal : IsDecimal text number)
    (lower : -2 ^ 31 ≤ number) (upper : number < 2 ^ 31) : atoi text = number := by
  rcases decimal.read with ⟨sign, magnitude, isRead, rfl⟩
  have unclamped : strtol text = sign.apply magnitude := by
    simp only [strtol, isRead]
    omega
  rw [Numeral.atoi, unclamped]
  exact Int.bmod_eq_of_le (by omega) (by omega)

end Numeral
