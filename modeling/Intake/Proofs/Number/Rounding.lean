import Mathlib.Data.Nat.Log
import Mathlib.Tactic.Ring
import Intake.Number
/-!
# Integers as binary64 numbers

An integer becomes the binary64 number nearest to it, and that keeps the order of any two integers
but for those that become one number:

    (ofInt a).le (ofInt b) = true ↔ a ≤ b ∨ ofInt a = ofInt b

`nearest n` is what becomes of a natural number: itself below `2 ^ 53` (`nearest_of_lt`), and beyond
a multiple of a power of two.  An integer below `2 ^ 53` in magnitude shares its binary64 number
with no other (`ofInt_inj`).
-/

namespace Intake.Binary64

/-! ## The nearest multiple -/

theorem roundQuotient_one (n : Nat) : roundQuotient n 1 = n := by
  simp [roundQuotient, Nat.mod_one]

theorem roundQuotient_bounds (num den : Nat) :
    num / den ≤ roundQuotient num den ∧ roundQuotient num den ≤ num / den + 1 := by
  unfold roundQuotient
  dsimp only
  split <;> omega

theorem roundQuotient_mono {a b : Nat} (h : a ≤ b) (den : Nat) :
    roundQuotient a den ≤ roundQuotient b den := by
  have hdiv : a / den ≤ b / den := Nat.div_le_div_right h
  rcases Nat.lt_or_eq_of_le hdiv with hlt | heq
  · have ha := (roundQuotient_bounds a den).2
    have hb := (roundQuotient_bounds b den).1
    omega
  · -- between the same multiples the greater remainder is rounded up first
    have hmod : a % den ≤ b % den := by
      have ha := Nat.div_add_mod a den
      have hb := Nat.div_add_mod b den
      rw [heq] at ha
      omega
    unfold roundQuotient
    dsimp only
    rw [heq]
    split <;> split <;> omega

/-! ## The nearest number of 53 digits -/

/-- The natural number of 53 binary digits, and zeros behind them, that is nearest to `n`. -/
def nearest (n : Nat) : Nat :=
  roundQuotient n (2 ^ (n.log2 - 52)) * 2 ^ (n.log2 - 52)

theorem nearest_of_lt {n : Nat} (h : n < 2 ^ 53) : nearest n = n := by
  have hlog : n.log2 - 52 = 0 := by
    rcases Nat.eq_zero_or_pos n with rfl | hn
    · rfl
    · have := (Nat.log2_lt (Nat.ne_of_gt hn)).2 h
      omega
  rw [nearest, hlog, Nat.pow_zero, roundQuotient_one, Nat.mul_one]

/-- The digits in front of the zeros. -/
theorem quotient_bounds {n : Nat} (hn : n ≠ 0) :
    n / 2 ^ (n.log2 - 52) < 2 ^ 53 ∧ (52 ≤ n.log2 → 2 ^ 52 ≤ n / 2 ^ (n.log2 - 52)) := by
  have hpos : 0 < 2 ^ (n.log2 - 52) := Nat.two_pow_pos _
  refine ⟨(Nat.div_lt_iff_lt_mul hpos).2 ?_, fun hlog => (Nat.le_div_iff_mul_le hpos).2 ?_⟩
  · rw [← Nat.pow_add]
    exact Nat.lt_of_lt_of_le Nat.lt_log2_self (Nat.pow_le_pow_right Nat.two_pos (by omega))
  · rw [← Nat.pow_add, Nat.add_sub_cancel' hlog]
    exact Nat.log2_self_le hn

theorem nearest_le {n : Nat} (hn : n ≠ 0) : nearest n ≤ 2 ^ (53 + (n.log2 - 52)) := by
  have hquotient := (quotient_bounds hn).1
  have hround := (roundQuotient_bounds n (2 ^ (n.log2 - 52))).2
  rw [nearest, Nat.pow_add]
  exact Nat.mul_le_mul_right _ (by omega)

theorem le_nearest {n : Nat} (hn : n ≠ 0) (hlog : 52 ≤ n.log2) :
    2 ^ (52 + (n.log2 - 52)) ≤ nearest n := by
  have hquotient := (quotient_bounds hn).2 hlog
  have hround := (roundQuotient_bounds n (2 ^ (n.log2 - 52))).1
  rw [nearest, Nat.pow_add]
  exact Nat.mul_le_mul_right _ (Nat.le_trans hquotient hround)

/-- Up to the next power of two the numbers are multiples of the same one, and a greater number is
not rounded below it. -/
theorem nearest_mono {a b : Nat} (h : a ≤ b) : nearest a ≤ nearest b := by
  rcases Nat.eq_zero_or_pos a with rfl | ha
  · rw [nearest_of_lt (by decide)]
    exact Nat.zero_le _
  have ha' : a ≠ 0 := Nat.ne_of_gt ha
  have hb' : b ≠ 0 := Nat.ne_of_gt (Nat.lt_of_lt_of_le ha h)
  have hlog : a.log2 ≤ b.log2 := by
    rw [Nat.log2_eq_log_two, Nat.log2_eq_log_two]
    exact Nat.log_mono_right h
  by_cases heq : a.log2 - 52 = b.log2 - 52
  · rw [nearest, nearest, heq]
    exact Nat.mul_le_mul_right _ (roundQuotient_mono h _)
  · calc nearest a ≤ 2 ^ (53 + (a.log2 - 52)) := nearest_le ha'
      _ ≤ 2 ^ (52 + (b.log2 - 52)) := Nat.pow_le_pow_right Nat.two_pos (by omega)
      _ ≤ nearest b := le_nearest hb' (by omega)

/-! ## What becomes of an integer -/

theorem floorLog2_one {n : Nat} (hn : n ≠ 0) : floorLog2 n 1 = n.log2 := by
  have hlength : (bitLength n : Int) - bitLength 1 = n.log2 := by
    have hone : bitLength 1 = 1 := by decide
    rw [bitLength, if_neg hn, hone]
    omega
  have hle : ¬ n * 2 ^ (-(n.log2 : Int)).toNat < 1 * 2 ^ (n.log2 : Int).toNat := by
    have hself := Nat.log2_self_le hn
    have hneg : (-(n.log2 : Int)).toNat = 0 := by omega
    rw [hneg, Int.toNat_natCast]
    omega
  unfold floorLog2
  dsimp only
  rw [hlength]
  exact if_neg hle

/-- The significand has 53 digits, and the value is the one that is nearest. -/
structure Rounds (negative : Bool) (n : Nat) (x : Binary64) : Prop where
  sign : x.negative = negative
  low : 2 ^ 52 ≤ x.significand
  high : x.significand < 2 ^ 53
  place : -52 ≤ x.exponent
  value : x.significand * 2 ^ (x.exponent + 1074).toNat = nearest n * 2 ^ 1074

section

variable (negative : Bool) {n s p : Nat}

/-- All digits fit, and zeros fill them up. -/
theorem rounds_of_filled (hn : n ≠ 0) (hs : n.log2 + s = 52) :
    Rounds negative n ⟨negative, n * 2 ^ s, n.log2 - 52⟩ := by
  have hlow : 2 ^ n.log2 ≤ n := Nat.log2_self_le hn
  have hhigh : n < 2 ^ (n.log2 + 1) := Nat.lt_log2_self
  have hlt : n < 2 ^ 53 := Nat.lt_of_lt_of_le hhigh (Nat.pow_le_pow_right Nat.two_pos (by omega))
  have hfill : 2 ^ 53 = 2 ^ (n.log2 + 1) * 2 ^ s := by
    rw [← Nat.pow_add]
    exact congrArg (2 ^ ·) (by omega)
  refine ⟨rfl, ?_, ?_, ?_, ?_⟩
  · show 2 ^ 52 ≤ n * 2 ^ s
    rw [← hs, Nat.pow_add]
    exact Nat.mul_le_mul_right _ hlow
  · show n * 2 ^ s < 2 ^ 53
    rw [hfill]
    exact Nat.mul_lt_mul_of_pos_right hhigh (Nat.two_pow_pos s)
  · show -52 ≤ (n.log2 : Int) - 52
    omega
  · have hpower : ((n.log2 : Int) - 52 + 1074).toNat = 1074 - s := by omega
    have hshift : ∀ c, s ≤ c → n * 2 ^ s * 2 ^ (c - s) = n * 2 ^ c := by
      intro c hc
      rw [Nat.mul_assoc, ← Nat.pow_add, Nat.add_sub_cancel' hc]
    show n * 2 ^ s * 2 ^ ((n.log2 : Int) - 52 + 1074).toNat = nearest n * 2 ^ 1074
    rw [nearest_of_lt hlt, hpower]
    exact hshift 1074 (by omega)

theorem nearest_of_log2 (hp : n.log2 = 52 + p) : nearest n = roundQuotient n (2 ^ p) * 2 ^ p := by
  rw [nearest, hp, Nat.add_sub_cancel_left]

/-- The digits behind the first 53 are rounded away. -/
theorem rounds_of_rounded (hn : n ≠ 0) (hp : n.log2 = 52 + p)
    (hcarry : roundQuotient n (2 ^ p) ≠ 2 ^ 53) :
    Rounds negative n ⟨negative, roundQuotient n (2 ^ p), n.log2 - 52⟩ := by
  have hplaces : n.log2 - 52 = p := by omega
  have hround := roundQuotient_bounds n (2 ^ p)
  have hquotient := quotient_bounds hn
  rw [hplaces] at hquotient
  have hfloor := hquotient.2 (by omega)
  refine ⟨rfl, Nat.le_trans hfloor hround.1, ?_, ?_, ?_⟩
  · show roundQuotient n (2 ^ p) < 2 ^ 53
    omega
  · show -52 ≤ (n.log2 : Int) - 52
    omega
  · have hpower : ((n.log2 : Int) - 52 + 1074).toNat = p + 1074 := by omega
    have hshift : ∀ m c, m * 2 ^ (p + c) = m * 2 ^ p * 2 ^ c := by
      intro m c
      ring
    show roundQuotient n (2 ^ p) * 2 ^ ((n.log2 : Int) - 52 + 1074).toNat = nearest n * 2 ^ 1074
    rw [nearest_of_log2 hp, hpower, hshift]

/-- Rounding up gave one digit more. -/
theorem rounds_of_carried (hp : n.log2 = 52 + p) (hcarry : roundQuotient n (2 ^ p) = 2 ^ 53) :
    Rounds negative n ⟨negative, 2 ^ 52, n.log2 - 52 + 1⟩ := by
  have hlt : 2 ^ 52 < 2 ^ 53 := by decide
  refine ⟨rfl, Nat.le_refl _, hlt, ?_, ?_⟩
  · show -52 ≤ (n.log2 : Int) - 52 + 1
    omega
  · have hpower : ((n.log2 : Int) - 52 + 1 + 1074).toNat = 1 + p + 1074 := by omega
    have hshift : ∀ c, 2 ^ 52 * 2 ^ (1 + p + c) = 2 ^ 53 * 2 ^ p * 2 ^ c := by
      intro c
      ring
    show 2 ^ 52 * 2 ^ ((n.log2 : Int) - 52 + 1 + 1074).toNat = nearest n * 2 ^ 1074
    rw [nearest_of_log2 hp, hcarry, hpower, hshift]

theorem rounds_ofRatio (hn : n ≠ 0) : Rounds negative n (ofRatio negative n 1) := by
  have hexponent : max ((n.log2 : Int) - 52) (-1074) = n.log2 - 52 := by omega
  simp only [ofRatio, if_neg hn, floorLog2_one hn, hexponent, Nat.one_mul, Nat.pow_eq]
  rcases Nat.lt_or_ge n.log2 52 with hlog | hlog
  · obtain ⟨s, hs⟩ : ∃ s, n.log2 + s = 52 := ⟨52 - n.log2, by omega⟩
    have hdown : (-((n.log2 : Int) - 52)).toNat = s := by omega
    have hup : ((n.log2 : Int) - 52).toNat = 0 := by omega
    have hrounds := rounds_of_filled negative hn hs
    rw [hdown, hup, Nat.pow_zero, roundQuotient_one, if_neg (Nat.ne_of_lt hrounds.high)]
    exact hrounds
  · obtain ⟨p, hp⟩ : ∃ p, n.log2 = 52 + p := ⟨n.log2 - 52, by omega⟩
    have hdown : (-((n.log2 : Int) - 52)).toNat = 0 := by omega
    have hup : ((n.log2 : Int) - 52).toNat = p := by omega
    rw [hdown, hup, Nat.pow_zero, Nat.mul_one]
    split
    · next hcarry => exact rounds_of_carried negative hp hcarry
    · next hcarry => exact rounds_of_rounded negative hn hp hcarry

end

/-- A number with 53 digits is known by its value. -/
theorem Rounds.eq {negative : Bool} {m n : Nat} {x y : Binary64} (hx : Rounds negative m x)
    (hy : Rounds negative n y) (h : nearest m = nearest n) : x = y := by
  have hvalue := hx.value.trans (h ▸ hy.value.symm)
  have := hx.low; have := hx.high; have := hy.low; have := hy.high
  -- a greater power of two would need fewer digits
  have hexponent : ∀ {a b i j : Nat}, 2 ^ 52 ≤ a → b < 2 ^ 53 → a * 2 ^ i = b * 2 ^ j → i ≤ j := by
    intro a b i j ha hb heq
    by_contra hlt
    obtain ⟨d, rfl⟩ : ∃ d, i = j + 1 + d := ⟨i - j - 1, by omega⟩
    have hmul : a * 2 ^ (j + 1 + d) = a * 2 * 2 ^ d * 2 ^ j := by ring
    rw [hmul] at heq
    have hb' := Nat.eq_of_mul_eq_mul_right (Nat.two_pow_pos j) heq
    have hd : a * 2 ≤ a * 2 * 2 ^ d := Nat.le_mul_of_pos_right _ (Nat.two_pow_pos d)
    omega
  have heq : (x.exponent + 1074).toNat = (y.exponent + 1074).toNat :=
    Nat.le_antisymm (hexponent hx.low hy.high hvalue) (hexponent hy.low hx.high hvalue.symm)
  rw [heq] at hvalue
  have hsignificand := Nat.eq_of_mul_eq_mul_right (Nat.two_pow_pos _) hvalue
  have hplace := hx.place; have hplace' := hy.place
  obtain ⟨_, _, _⟩ := x
  obtain ⟨_, _, _⟩ := y
  have hsign := hx.sign.trans hy.sign.symm
  simp only [Binary64.mk.injEq] at *
  exact ⟨hsign, hsignificand, by omega⟩

/-! ## The order of integers -/

theorem rounds_ofInt {n : Int} (hn : n ≠ 0) : Rounds (n < 0) n.natAbs (ofInt n) :=
  rounds_ofRatio _ (Int.natAbs_ne_zero.2 hn)

theorem scaled_eq {x : Binary64} {m : Nat}
    (h : x.significand * 2 ^ (x.exponent + 1074).toNat = m) :
    x.scaled = if x.negative then -(m : Int) else m := by
  rw [← h]
  rfl

/-- The nearest integer of 53 digits, with the sign of the integer. -/
def nearestInt (n : Int) : Int := n.sign * nearest n.natAbs

theorem scaled_ofInt_eq (n : Int) :
    (ofInt n).scaled = nearestInt n * ((2 ^ 1074 : Nat) : Int) := by
  by_cases hn : n = 0
  · subst hn
    have hnearest : nearestInt 0 = 0 := by simp [nearestInt]
    rw [hnearest, Int.zero_mul]
    rfl
  · have h := rounds_ofInt hn
    rw [scaled_eq h.value, h.sign, nearestInt]
    generalize 2 ^ 1074 = unit
    rcases Int.lt_or_gt_of_ne hn with hneg | hpos
    · simp [hneg, Int.sign_eq_neg_one_of_neg hneg]
    · simp [Int.not_lt.2 (Int.le_of_lt hpos), Int.sign_eq_one_of_pos hpos]

/-- Values are compared in one unit. -/
theorem scaled_ofInt : ∃ unit : Int, 0 < unit ∧ ∀ n, (ofInt n).scaled = nearestInt n * unit := by
  have hpos : ∀ k : Nat, 0 < ((2 ^ k : Nat) : Int) := fun k => Int.natCast_pos.2 (Nat.two_pow_pos k)
  exact ⟨_, hpos _, scaled_ofInt_eq⟩

theorem nearestInt_of_nonneg {n : Int} (h : 0 ≤ n) : nearestInt n = nearest n.natAbs := by
  rcases Int.le_iff_eq_or_lt.1 h with rfl | hpos
  · simp [nearestInt, nearest_of_lt]
  · simp [nearestInt, Int.sign_eq_one_of_pos hpos]

theorem nearestInt_of_neg {n : Int} (h : n < 0) : nearestInt n = -nearest n.natAbs := by
  simp [nearestInt, Int.sign_eq_neg_one_of_neg h]

theorem nearestInt_of_lt {n : Int} (h : n.natAbs < 2 ^ 53) : nearestInt n = n := by
  rw [nearestInt, nearest_of_lt h, Int.sign_mul_natAbs]

theorem nearestInt_mono {a b : Int} (h : a ≤ b) : nearestInt a ≤ nearestInt b := by
  rcases Int.lt_or_le a 0 with ha | ha <;> rcases Int.lt_or_le b 0 with hb | hb
  · have hle : nearest b.natAbs ≤ nearest a.natAbs := nearest_mono (by omega)
    rw [nearestInt_of_neg ha, nearestInt_of_neg hb]
    omega
  · rw [nearestInt_of_neg ha, nearestInt_of_nonneg hb]
    omega
  · omega
  · have hle : nearest a.natAbs ≤ nearest b.natAbs := nearest_mono (by omega)
    rw [nearestInt_of_nonneg ha, nearestInt_of_nonneg hb]
    omega

/-- An integer that is not zero is not rounded to zero. -/
theorem nearest_pos {n : Nat} (hn : n ≠ 0) : 0 < nearest n := by
  have hone : nearest 1 = 1 := nearest_of_lt (by decide)
  have hmono : nearest 1 ≤ nearest n := nearest_mono (Nat.pos_of_ne_zero hn)
  omega

theorem nearestInt_eq_zero {n : Int} : nearestInt n = 0 ↔ n = 0 := by
  constructor
  · intro h
    by_contra hn
    have hpos := nearest_pos (Int.natAbs_ne_zero.2 hn)
    rcases Int.lt_or_le n 0 with hneg | hnonneg
    · rw [nearestInt_of_neg hneg] at h
      omega
    · rw [nearestInt_of_nonneg hnonneg] at h
      omega
  · rintro rfl
    exact nearestInt_of_lt (by decide)

/-- Integers with the same nearest one become the same number. -/
theorem ofInt_eq_iff {a b : Int} : ofInt a = ofInt b ↔ nearestInt a = nearestInt b := by
  constructor
  · intro h
    obtain ⟨unit, hunit, hscaled⟩ := scaled_ofInt
    refine Int.eq_of_mul_eq_mul_right (Int.ne_of_gt hunit) ?_
    rw [← hscaled, ← hscaled, h]
  · intro h
    by_cases ha : a = 0
    · have hb : b = 0 := by rw [← nearestInt_eq_zero, ← h, ha]; rfl
      rw [ha, hb]
    · have hb : b ≠ 0 := by rwa [Ne, ← nearestInt_eq_zero, ← h, nearestInt_eq_zero]
      have hposa := nearest_pos (Int.natAbs_ne_zero.2 ha)
      have hposb := nearest_pos (Int.natAbs_ne_zero.2 hb)
      -- the sign of an integer is the sign of its nearest one
      have hboth : (a < 0 ↔ b < 0) ∧ nearest a.natAbs = nearest b.natAbs := by
        rcases Int.lt_or_le a 0 with ha' | ha' <;> rcases Int.lt_or_le b 0 with hb' | hb'
        · rw [nearestInt_of_neg ha', nearestInt_of_neg hb'] at h
          omega
        · rw [nearestInt_of_neg ha', nearestInt_of_nonneg hb'] at h
          omega
        · rw [nearestInt_of_nonneg ha', nearestInt_of_neg hb'] at h
          omega
        · rw [nearestInt_of_nonneg ha', nearestInt_of_nonneg hb'] at h
          omega
      have hrounds := rounds_ofInt ha
      rw [decide_eq_decide.2 hboth.1] at hrounds
      exact hrounds.eq (rounds_ofInt hb) hboth.2

/-- The order of two integers is kept, unless they become one number. -/
theorem le_ofInt_iff (a b : Int) : (ofInt a).le (ofInt b) = true ↔ a ≤ b ∨ ofInt a = ofInt b := by
  obtain ⟨unit, hunit, hscaled⟩ := scaled_ofInt
  rw [le, decide_eq_true_iff, hscaled, hscaled, Int.mul_le_mul_right hunit, ofInt_eq_iff]
  constructor
  · intro h
    rcases Int.lt_or_le b a with hlt | hle
    · exact .inr (Int.le_antisymm h (nearestInt_mono (Int.le_of_lt hlt)))
    · exact .inl hle
  · rintro (hle | heq)
    · exact nearestInt_mono hle
    · exact Int.le_of_eq heq

/-- An integer below `2 ^ 53` in magnitude shares its number with no other integer. -/
theorem ofInt_inj {a b : Int} (h : a.natAbs < 2 ^ 53) : ofInt a = ofInt b ↔ a = b := by
  refine ⟨fun heq => ?_, fun heq => by rw [heq]⟩
  rw [ofInt_eq_iff, nearestInt_of_lt h] at heq
  by_cases hb : b.natAbs < 2 ^ 53
  · rwa [nearestInt_of_lt hb] at heq
  · have htop : nearest (2 ^ 53) = 2 ^ 53 := by decide
    have hfar : nearest (2 ^ 53) ≤ nearest b.natAbs := nearest_mono (Nat.le_of_not_lt hb)
    rcases Int.lt_or_le b 0 with hneg | hnonneg
    · rw [nearestInt_of_neg hneg] at heq
      omega
    · rw [nearestInt_of_nonneg hnonneg] at heq
      omega

end Intake.Binary64
