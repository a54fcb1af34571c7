import Mathlib.Algebra.Ring.Nat
import SyntaxLens.Number.Decimal

/-! # Numerals

A text is read as a number below `2 ^ 64` exactly if it is a numeral of it: decimal digits, with a
plus sign in front of them or not (`readNat64?_eq_some_iff`).  So a number has many numerals, and
`Nat.toDigits` gives one (`denotes_toDigits`). -/

namespace SyntaxLens.Decimal

/-- The characters are a numeral of the number. -/
def Denotes (cs : List Char) (n : ℕ) : Prop :=
  n < 2 ^ 64 ∧ ∃ digits, (cs = digits ∨ cs = '+' :: digits) ∧ digits ≠ [] ∧
    (∀ c ∈ digits, c.isDigit) ∧ Nat.ofDigitChars 10 digits 0 = n

theorem value_eq (digits : List Char) : value digits = Nat.ofDigitChars 10 digits 0 := by
  simp only [value, Nat.ofDigitChars_eq_foldl, Nat.mul_comm]

theorem readDigits?_eq_some_iff {cs : List Char} {n : ℕ} : readDigits? cs = some n ↔
    cs ≠ [] ∧ (∀ c ∈ cs, c.isDigit) ∧ Nat.ofDigitChars 10 cs 0 = n := by
  simp only [readDigits?, value_eq, Option.ite_none_right_eq_some, Bool.and_eq_true,
    Bool.not_eq_true', List.isEmpty_eq_false_iff, List.all_eq_true, Option.some.injEq, and_assoc]

theorem readNat64?_plus (cs : List Char) :
    readNat64? ('+' :: cs) = (readDigits? cs).filter (· < 2 ^ 64) := by
  rw [readNat64?]
  cases readDigits? cs with
  | none => rfl
  | some n =>
      rw [Option.filter_some]
      simp only [decide_eq_true_eq]
      rfl

theorem readNat64?_of_unsigned {cs : List Char} (h : ∀ rest, cs ≠ '+' :: rest) :
    readNat64? cs = (readDigits? cs).filter (· < 2 ^ 64) := by
  unfold readNat64?
  split
  · exact absurd rfl (h _)
  · dsimp only
    cases readDigits? cs with
    | none => rfl
    | some n =>
        rw [Option.filter_some]
        simp only [decide_eq_true_eq]
        rfl

theorem readNat64?_eq_some_iff {cs : List Char} {n : ℕ} :
    readNat64? cs = some n ↔ Denotes cs n := by
  by_cases hplus : ∃ rest, cs = '+' :: rest
  · obtain ⟨rest, rfl⟩ := hplus
    rw [readNat64?_plus, Option.filter_eq_some_iff, decide_eq_true_eq, readDigits?_eq_some_iff]
    constructor
    · rintro ⟨h, hlt⟩
      exact ⟨hlt, rest, .inr rfl, h⟩
    · rintro ⟨hlt, digits, rfl | hdigits, h⟩
      · exact absurd (h.2.1 '+' List.mem_cons_self) (by decide)
      · obtain rfl := (List.cons.inj hdigits).2
        exact ⟨h, hlt⟩
  · rw [readNat64?_of_unsigned fun rest hrest => hplus ⟨rest, hrest⟩, Option.filter_eq_some_iff,
      decide_eq_true_eq, readDigits?_eq_some_iff]
    constructor
    · rintro ⟨h, hlt⟩
      exact ⟨hlt, cs, .inl rfl, h⟩
    · rintro ⟨hlt, digits, rfl | hdigits, h⟩
      · exact ⟨h, hlt⟩
      · exact absurd ⟨digits, hdigits⟩ hplus

/-- The decimal digits of a word are a numeral of it. -/
theorem denotes_toDigits {n : ℕ} (h : n < 2 ^ 64) : Denotes (Nat.toDigits 10 n) n :=
  ⟨h, _, .inl rfl, Nat.toDigits_ne_nil,
    fun _ hc => Nat.isDigit_of_mem_toDigits (by decide) (by decide) hc,
    Nat.ofDigitChars_ten_toDigits⟩

end SyntaxLens.Decimal
