import Intake.Processor.Standard
import Intake.Proofs.Number.Rounding
/-!
# Bounds of integers

The two bounds of numbers compare integers as binary64 numbers.  An integer is within a bound if
its order to the bound says so, and also if both have become the same binary64 number, which
happens only from `2 ^ 53` on.  For all integers `v` and `b`:

    number/min of v with b  =  if b ≤ v ∨ ofInt v = ofInt b then pass v else reject v {min: b}
    number/max of v with b  =  if v ≤ b ∨ ofInt v = ofInt b then pass v else reject v {max: b}

So both bounds are exact on `v` and `b` exactly if these do not become one number without being one,
as when one of the two is below `2 ^ 53` in magnitude; beyond, an integer passes a bound that it
misses by less than the rounding (`bounds_missed`).
-/

namespace Intake.Processor

variable {key name : String} {ok : Binary64 → Binary64 → Bool} {v b : Int}

/-- The answer of a bound `b` that the integer `v` is `within` or not. -/
def boundAnswer (key name : String) (v b : Int) (within : Prop) [Decidable within] : StepResult :=
  if within then .pass (.num (.int v)) else .reject (.num (.int v)) key [(name, .num (.int b))]

/-- A bound that complains is told from one that does not. -/
theorem boundAnswer_inj {p q : Prop} [Decidable p] [Decidable q] :
    boundAnswer key name v b p = boundAnswer key name v b q ↔ (p ↔ q) := by
  constructor
  · intro heq
    have hfailure : ∀ (within : Prop) [Decidable within],
        (boundAnswer key name v b within).isFailure = false ↔ within := by
      intro within _
      rw [boundAnswer]
      split <;> simp [StepResult.isFailure, StepResult.pass, StepResult.reject, *]
    rw [← hfailure p, heq, hfailure q]
  · intro hiff
    exact if_congr hiff rfl rfl

theorem checkNumber_int {within : Prop} [Decidable within]
    (h : ok (.ofInt v) (.ofInt b) = true ↔ within) :
    checkNumber key name ok (.num (.int v)) [some (.num (.int b))] =
      boundAnswer key name v b within :=
  if_congr h rfl rfl

theorem atLeast_ofInt (v b : Int) :
    atLeast (.ofInt v) (.ofInt b) = true ↔ b ≤ v ∨ Binary64.ofInt v = Binary64.ofInt b := by
  rw [atLeast, Binary64.le_ofInt_iff, eq_comm]

theorem atMost_ofInt (v b : Int) :
    atMost (.ofInt v) (.ofInt b) = true ↔ v ≤ b ∨ Binary64.ofInt v = Binary64.ofInt b := by
  rw [atMost, Binary64.le_ofInt_iff]

/-- Two orders that are weakened by one proposition are both exact if that does not weaken them. -/
theorem both_exact_iff {same : Prop} :
    ((b ≤ v ∨ same ↔ b ≤ v) ∧ (v ≤ b ∨ same ↔ v ≤ b)) ↔ (same → v = b) := by
  constructor
  · rintro ⟨hleast, hgreatest⟩ hsame
    exact Int.le_antisymm (hgreatest.1 (.inr hsame)) (hleast.1 (.inr hsame))
  · intro h
    exact ⟨or_iff_left_of_imp fun hsame => Int.le_of_eq (h hsame).symm,
      or_iff_left_of_imp fun hsame => Int.le_of_eq (h hsame)⟩

theorem ofInt_inj_of_either (h : v.natAbs < 2 ^ 53 ∨ b.natAbs < 2 ^ 53)
    (heq : Binary64.ofInt v = Binary64.ofInt b) : v = b := by
  rcases h with hv | hb
  · exact (Binary64.ofInt_inj hv).1 heq
  · exact ((Binary64.ofInt_inj hb).1 heq.symm).symm

/-- The bounds of the standard registry on two integers: what they answer, and when both answers
are those of the orders on the integers. -/
theorem integer_bounds (v b : Int) :
    ∃ least greatest : Processor,
      Table.get? Registry.standard "number/min" = some least ∧
      Table.get? Registry.standard "number/max" = some greatest ∧
      least.run (.num (.int v)) [some (.num (.int b))] =
        boundAnswer "number/min" "min" v b (b ≤ v ∨ Binary64.ofInt v = Binary64.ofInt b) ∧
      greatest.run (.num (.int v)) [some (.num (.int b))] =
        boundAnswer "number/max" "max" v b (v ≤ b ∨ Binary64.ofInt v = Binary64.ofInt b) ∧
      ((least.run (.num (.int v)) [some (.num (.int b))] =
          boundAnswer "number/min" "min" v b (b ≤ v) ∧
        greatest.run (.num (.int v)) [some (.num (.int b))] =
          boundAnswer "number/max" "max" v b (v ≤ b)) ↔
        (Binary64.ofInt v = Binary64.ofInt b → v = b)) ∧
      (v.natAbs < 2 ^ 53 ∨ b.natAbs < 2 ^ 53 → Binary64.ofInt v = Binary64.ofInt b → v = b) := by
  have hleast : checkNumber "number/min" "min" atLeast (.num (.int v)) [some (.num (.int b))] =
      boundAnswer "number/min" "min" v b (b ≤ v ∨ Binary64.ofInt v = Binary64.ofInt b) :=
    checkNumber_int (atLeast_ofInt v b)
  have hgreatest : checkNumber "number/max" "max" atMost (.num (.int v)) [some (.num (.int b))] =
      boundAnswer "number/max" "max" v b (v ≤ b ∨ Binary64.ofInt v = Binary64.ofInt b) :=
    checkNumber_int (atMost_ofInt v b)
  refine ⟨_, _, rfl, rfl, hleast, hgreatest, ?_, ofInt_inj_of_either⟩
  refine Iff.trans (and_congr ?_ ?_) both_exact_iff
  · exact (congrArg (· = _) hleast).to_iff.trans boundAnswer_inj
  · exact (congrArg (· = _) hgreatest).to_iff.trans boundAnswer_inj

theorem integer_bounds_four :
    (Int.natAbs 4 < 2 ^ 53 ∨ Int.natAbs 5 < 2 ^ 53) ∧
    ∃ least, Table.get? Registry.standard "number/min" = some least ∧
      least.run (.num (.int 4)) [some (.num (.int 5))] =
        .reject (.num (.int 4)) "number/min" [("min", .num (.int 5))] := by
  have hsmall : Int.natAbs 4 < 2 ^ 53 ∨ Int.natAbs 5 < 2 ^ 53 := .inl (by decide)
  obtain ⟨least, _, hget, -, -, -, hexact, hinj⟩ := integer_bounds 4 5
  exact ⟨hsmall, least, hget, (hexact.2 (hinj hsmall)).1⟩

/-- Two integers of the range that become one binary64 number pass each as the other's bound. -/
theorem bounds_missed :
    Number.holdsInt 9007199254740992 = true ∧ Number.holdsInt 9007199254740993 = true ∧
    (∃ least, Table.get? Registry.standard "number/min" = some least ∧
      ¬ (least.run (.num (.int 9007199254740992))
          [some (.num (.int 9007199254740993))]).isFailure = true) ∧
    (∃ greatest, Table.get? Registry.standard "number/max" = some greatest ∧
      ¬ (greatest.run (.num (.int 9007199254740993))
          [some (.num (.int 9007199254740992))]).isFailure = true) := by
  refine ⟨by decide, by decide, ⟨_, rfl, ?_⟩, ⟨_, rfl, ?_⟩⟩
  · decide +kernel
  · decide +kernel

end Intake.Processor
