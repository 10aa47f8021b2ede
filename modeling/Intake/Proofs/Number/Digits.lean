import Mathlib.Data.List.TakeWhile
import Intake.Number.Reading
import Intake.Proofs.Json.Tokens
import Intake.Proofs.Number.Rounding
/-!
# Integers in decimal

The text of an integer is read in three ways: as an integer, as a binary64 number, and as a token of
JSON.  The first gives the integer back, the second rounds it once, and the third gives it back if
the integer has a place in a word:

    readInt (int n).write = some n
    readReal (int n).write = some (ofInt n)       for `0 ≤ n < 2 ^ 64`
    (int n).ReadsBack                             for `holdsInt n`

All of them rest on one fact, that the digits of a natural number spell it.
-/

namespace Intake

/-! ## Digits -/

section

variable (n : Nat)

theorem foldl_digits (cs : List Char) (n : Nat) :
    cs.foldl (fun n c => n * 10 + (c.toNat - '0'.toNat)) n = Nat.ofDigitChars 10 cs n := by
  simp only [Nat.ofDigitChars, Nat.mul_comm]

theorem all_isDigit_toDigits : (Nat.toDigits 10 n).all Char.isDigit = true :=
  List.all_eq_true.2 fun _ => Nat.isDigit_of_mem_toDigits (by decide) (by decide)

theorem takeWhile_toDigits : (Nat.toDigits 10 n).takeWhile Char.isDigit = Nat.toDigits 10 n :=
  List.takeWhile_eq_self_iff.2 (List.all_eq_true.1 (all_isDigit_toDigits n))

theorem dropWhile_toDigits : (Nat.toDigits 10 n).dropWhile Char.isDigit = [] :=
  List.dropWhile_eq_nil_iff.2 (List.all_eq_true.1 (all_isDigit_toDigits n))

/-- Only zero has a zero in front. -/
theorem eq_zero_of_head_toDigits (h : (Nat.toDigits 10 n).head? = some '0') : n = 0 := by
  induction n using Nat.strongRecOn with
  | ind n ih =>
    rcases Nat.lt_or_ge n 10 with hn | hn
    · rw [Nat.toDigits_of_lt_base hn] at h
      have hdigit : ∀ n < 10, [Nat.digitChar n].head? = some '0' → n = 0 := by decide
      exact hdigit n hn h
    · rw [Nat.toDigits_of_base_le (by decide) hn,
        List.head?_append_of_ne_nil _ Nat.toDigits_ne_nil] at h
      have hrest := ih (n / 10) (by omega) h
      omega

end

namespace Number

section

variable (n : Nat)

@[simp]
theorem readDigits_toDigits : readDigits (Nat.toDigits 10 n) = some n := by
  rw [readDigits, if_pos ⟨Nat.toDigits_ne_nil, all_isDigit_toDigits n⟩, foldl_digits,
    Nat.ofDigitChars_ten_toDigits]

theorem write_ofNat : (int n).write = Nat.toDigits 10 n := by
  rw [write, Int.toString_eq_repr, Int.repr_eq_if, if_pos (Int.natCast_nonneg n), Int.toNat_natCast,
    Nat.toList_repr]

theorem write_neg {n : Nat} (hn : n ≠ 0) : (int (-n)).write = '-' :: Nat.toDigits 10 n := by
  rw [write, Int.toString_eq_repr, Int.repr_eq_if, if_neg (by omega), Int.neg_neg,
    Int.toNat_natCast, String.toList_append, Nat.toList_repr]
  rfl

/-- Digits have no sign in front. -/
theorem splitSign_toDigits : splitSign (Nat.toDigits 10 n) = (false, Nat.toDigits 10 n) := by
  unfold splitSign
  have hdigit := all_isDigit_toDigits n
  split
  · next hcons =>
    rw [hcons] at hdigit
    exact absurd hdigit (by simp)
  · next hcons =>
    rw [hcons] at hdigit
    exact absurd hdigit (by simp)
  · rfl

end

/-- An integer is a natural number or the opposite of one that is not zero. -/
theorem int_cases (n : Int) : (∃ m : Nat, n = m) ∨ ∃ m : Nat, m ≠ 0 ∧ n = -m := by
  rcases Int.lt_or_le n 0 with hneg | hnonneg
  · exact .inr ⟨n.natAbs, by omega, by omega⟩
  · exact .inl ⟨n.natAbs, by omega⟩

theorem readInt_write (n : Int) : readInt (int n).write = some n := by
  obtain ⟨m, rfl⟩ | ⟨m, hm, rfl⟩ := int_cases n
  · simp [readInt, write_ofNat, splitSign_toDigits]
  · simp [readInt, write_neg hm, splitSign]

theorem readInt64_write (n : Int) :
    readInt64 (int n).write = if -2 ^ 63 ≤ n ∧ n < 2 ^ 63 then some n else none := by
  rw [readInt64, readInt_write, Option.filter_some]
  simp

/-! ## Rounding -/

/-- Integers of a word are far below the greatest binary64 number. -/
theorem isFinite_ofInt {n : Nat} (hn : n < 2 ^ 64) : (Binary64.ofInt n).isFinite = true := by
  rcases Nat.eq_zero_or_pos n with rfl | hpos
  · decide
  have hrounds := Binary64.rounds_ofInt (n := n) (by omega)
  rw [Int.natAbs_natCast] at hrounds
  have hnearest : Binary64.nearest n ≤ 2 ^ 64 :=
    Nat.le_trans (Binary64.nearest_mono (Nat.le_of_lt hn)) (by decide)
  have hplace := hrounds.place
  have hvalue := hrounds.value
  generalize hunit : 1074 = unit at hvalue
  have hpowers := calc 2 ^ (52 + ((Binary64.ofInt n).exponent + 1074).toNat)
    _ = 2 ^ 52 * 2 ^ ((Binary64.ofInt n).exponent + 1074).toNat := Nat.pow_add ..
    _ ≤ (Binary64.ofInt n).significand * 2 ^ ((Binary64.ofInt n).exponent + 1074).toNat :=
      Nat.mul_le_mul_right _ hrounds.low
    _ = Binary64.nearest n * 2 ^ unit := hvalue
    _ ≤ 2 ^ 64 * 2 ^ unit := Nat.mul_le_mul_right _ hnearest
    _ = 2 ^ (64 + unit) := (Nat.pow_add ..).symm
  rw [Nat.pow_le_pow_iff_right (by decide)] at hpowers
  rw [Binary64.isFinite, decide_eq_true_iff]
  omega

theorem ofDecimal_ofNat (n : Nat) : Binary64.ofDecimal false n 0 = Binary64.ofInt n := by
  have hsign : decide ((n : Int) < 0) = false := decide_eq_false (by omega)
  rw [Binary64.ofInt, Int.natAbs_natCast, hsign, Binary64.ofDecimal]
  split
  · next hzero => rw [Binary64.ofRatio, if_pos hzero]
  · rw [if_neg (by decide), if_neg (by omega)]
    simp

theorem readReal_write {n : Nat} (hn : n < 2 ^ 64) :
    readReal (int n).write = some (Binary64.ofInt n) := by
  simp only [readReal, write_ofNat, splitSign_toDigits, takeWhile_toDigits, dropWhile_toDigits,
    List.append_nil, readDigits_toDigits]
  simp [readPower, ofDecimal_ofNat, isFinite_ofInt hn]

end Number

/-! ## Tokens -/

namespace Json

theorem digitsValue_toDigits (n : Nat) : digitsValue (Nat.toDigits 10 n) = n := by
  show (Nat.toDigits 10 n).foldl (fun n c => n * 10 + (c.toNat - '0'.toNat)) 0 = n
  rw [foldl_digits, Nat.ofDigitChars_ten_toDigits]

theorem spanDigits_toDigits (n : Nat) : spanDigits (Nat.toDigits 10 n) = (Nat.toDigits 10 n, []) :=
  Prod.ext (takeWhile_toDigits n) (dropWhile_toDigits n)

/-- The digits of a number are a figure, as only zero has a zero in front. -/
theorem Figure.readUnsigned_toDigits (negative : Bool) (n : Nat) :
    Figure.readUnsigned negative (Nat.toDigits 10 n) =
      some (⟨negative, Nat.toDigits 10 n, none, none⟩, []) := by
  unfold Figure.readUnsigned
  rw [spanDigits_toDigits]
  dsimp only
  split
  · next hnil => exact absurd hnil Nat.toDigits_ne_nil
  · next hzero =>
    have hn := eq_zero_of_head_toDigits n (by rw [hzero]; rfl)
    subst hn
    cases hzero
  · rfl

theorem Figure.read_toDigits (n : Nat) :
    Figure.read (Nat.toDigits 10 n) = some (⟨false, Nat.toDigits 10 n, none, none⟩, []) := by
  rw [← readUnsigned_toDigits]
  cases hcons : Nat.toDigits 10 n with
  | nil => exact absurd hcons Nat.toDigits_ne_nil
  | cons c cs =>
    refine read_of_ne ?_ cs
    rintro rfl
    have hdigit := all_isDigit_toDigits n
    rw [hcons] at hdigit
    exact absurd hdigit (by simp)

end Json

theorem Number.readsBack_int {n : Int} (h : Number.holdsInt n = true) :
    (Number.int n).ReadsBack := by
  simp only [Number.holdsInt, Bool.and_eq_true, decide_eq_true_eq] at h
  unfold Number.ReadsBack
  obtain ⟨m, rfl⟩ | ⟨m, hm, rfl⟩ := Number.int_cases n
  · have hlt : m < Nat.pow 2 64 := by have := h.2; simp at this ⊢; omega
    rw [Number.write_ofNat, Json.Token.read_of_figure (Json.Figure.read_toDigits m)]
    simp [Json.Figure.value?, Json.digitsValue_toDigits, hlt]
  · have hle : m ≤ Nat.pow 2 63 := by have := h.1; simp at this ⊢; omega
    have hread := (Json.Figure.read_minus _).trans (Json.Figure.readUnsigned_toDigits true m)
    rw [Number.write_neg hm, Json.Token.read_of_figure hread]
    simp [Json.Figure.value?, Json.digitsValue_toDigits, hm, hle]

end Intake
