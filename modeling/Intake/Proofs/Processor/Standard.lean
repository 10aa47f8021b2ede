import Intake.Run
import Intake.Processor.Standard
import Intake.Proofs.Table
import Intake.Proofs.Value
/-!
# What the standard processors have in common

What a standard processor may complain of, and with which arguments, is one list (`stepKeys`); none
of it is an issue that only lists and objects record.  A check or a transformation hands its value
on, or another string in the place of a string.  A format processor either complains or gives a
value that is no list and no object.

    Table.get? Registry.standard key = some p → p.Regular
-/

namespace Intake

/-- The keys of the issues in which a list or an object speaks for its children. -/
def Issue.speaksFor (key : String) : Bool := key == "object/members" || key == "array/items"

/-- The keys of the issues that only a list or an object records: about its children, or about the
keys that it rejects. -/
def Issue.ofComposite (key : String) : Bool := speaksFor key || key == "object/unknown-keys"

theorem Issue.speaksFor_eq_false {key : String} (h : ofComposite key = false) :
    speaksFor key = false :=
  (Bool.or_eq_false_iff.1 h).1

/-- The issues of the standard processors, with the names of their arguments. -/
def Issue.stepKeys : List (String × List String) :=
  [ ("generic/equals", ["expected"]), ("generic/one-of", ["allowed"])
  , ("string/type", []), ("string/not-empty", [])
  , ("string/min-length", ["min", "actual"]), ("string/max-length", ["max", "actual"])
  , ("number/type", []), ("number/format", []), ("number/integer", [])
  , ("number/min", ["min"]), ("number/max", ["max"]), ("boolean/format", [])
  , ("date/type", []), ("date/format", ["format"]), ("date/min", ["min"]), ("date/max", ["max"])
  , ("array/type", []), ("array/unique", ["duplicate"])
  , ("array/min-items", ["min", "actual"]), ("array/max-items", ["max", "actual"]) ]

theorem Issue.not_ofComposite_stepKeys : ∀ entry ∈ stepKeys, ofComposite entry.1 = false := by
  decide

/-- What the standard processors have in common. -/
structure Processor.Regular (p : Processor) : Prop where
  silent : ∀ v args, ∀ issue ∈ Run.issuesOf p.key (p.run v args),
    Issue.ofComposite issue.key = false
  keeps : p.isFormat = false → ∀ v args, (p.run v args).value = v ∨
    ∃ a b, v = .str a ∧ (p.run v args).value = .str b
  reads : p.isFormat = true → ∀ v args, Run.issuesOf p.key (p.run v args) ≠ [] ∨
    (p.run v args).value.isComposite = false

namespace StepResult

/-- A result that hands `value` on, or rejects it with an issue that no list or object records. -/
inductive Hands (value : Value) : StepResult → Prop
  | pass : Hands value (.pass value)
  | reject {key : String} {args : List (String × Value)} (h : Issue.ofComposite key = false) :
      Hands value (.reject value key args)

variable {value : Value} {r : StepResult}

theorem Hands.value_eq (h : Hands value r) : r.value = value := by
  cases h <;> rfl

theorem issuesOf_reject (key name : String) (v : Value) (args : List (String × Value)) :
    Run.issuesOf key (.reject v name args) = [.of name args] := rfl

theorem Hands.silent (h : Hands value r) (key : String) :
    ∀ issue ∈ Run.issuesOf key r, Issue.ofComposite issue.key = false := by
  intro issue hissue
  cases h with
  | pass => cases hissue
  | reject h =>
    rw [issuesOf_reject, List.mem_singleton] at hissue
    rw [hissue]
    exact h

/-- A result whose issue, if it has one, is one of those of the standard processors. -/
inductive Known : StepResult → Prop
  | pass {value : Value} : Known (.pass value)
  | reject {value : Value} {key : String} {args : List (String × Value)}
      (h : (key, args.map (·.1)) ∈ Issue.stepKeys) : Known (.reject value key args)

/-- What a check of `value` gives. -/
structure Checks (value : Value) (r : StepResult) : Prop where
  hands : Hands value r
  known : Known r

theorem Checks.pass : Checks value (.pass value) := ⟨.pass, .pass⟩

theorem Checks.reject {key : String} {args : List (String × Value)}
    (h : (key, args.map (·.1)) ∈ Issue.stepKeys) : Checks value (.reject value key args) :=
  ⟨.reject (Issue.not_ofComposite_stepKeys _ h), .reject h⟩

/-- What a format processor gives: a single value, or an issue. -/
inductive Reads : StepResult → Prop
  | pass {value : Value} (h : value.isComposite = false) : Reads (.pass value)
  | reject {value : Value} {key : String} {args : List (String × Value)}
      (h : (key, args.map (·.1)) ∈ Issue.stepKeys) : Reads (.reject value key args)

theorem Reads.known (h : Reads r) : Known r := by
  cases h with
  | pass => exact .pass
  | reject h => exact .reject h

theorem Reads.silent (h : Reads r) (key : String) :
    ∀ issue ∈ Run.issuesOf key r, Issue.ofComposite issue.key = false := by
  cases h with
  | pass => exact (Hands.pass).silent key
  | reject h => exact (Checks.reject h).hands.silent key

end StepResult

namespace Processor

open StepResult

/-- A check only says whether it likes the value. -/
theorem Regular.of_check {key : String} {run : Value → Arguments → StepResult}
    (h : ∀ v args, Checks v (run v args)) : Regular (.step key run) where
  silent v args := (h v args).hands.silent key
  keeps _ v args := .inl (h v args).hands.value_eq
  reads hformat := by cases hformat

/-- A transformation makes strings of strings, and rejects the rest. -/
theorem Regular.of_text {key : String} (f : List Char → List Char) :
    Regular (.step key (onText f)) where
  silent v args issue hissue := by
    cases v with
    | str s => cases hissue
    | _ => exact (Hands.reject (by decide)).silent key issue hissue
  keeps _ v args := by
    cases v with
    | str s => exact .inr ⟨s, _, rfl, rfl⟩
    | _ => exact .inl rfl
  reads hformat := by cases hformat

/-- A format processor complains, or reads a single value. -/
theorem Regular.of_format {key : String} {run : Value → Arguments → StepResult}
    (h : ∀ v args, Reads (run v args)) : Regular (.format key run) where
  silent v args := (h v args).silent key
  keeps hformat := by cases hformat
  reads _ v args := by
    show Run.issuesOf key (run v args) ≠ [] ∨ (run v args).value.isComposite = false
    generalize run v args = r, h v args = hr
    cases hr with
    | pass hw => exact .inr hw
    | reject _ => exact .inl (List.cons_ne_nil _ _)

/-! ## The checks -/

theorem equals_checks (v : Value) (args : Arguments) : Checks v (equals v args) := by
  unfold equals
  repeat' split
  all_goals first | exact .pass | exact .reject (by simp [Issue.stepKeys])

theorem oneOf_checks (v : Value) (args : Arguments) : Checks v (oneOf v args) := by
  unfold oneOf
  dsimp only
  split
  · exact .pass
  · exact .reject (by simp [Issue.stepKeys])

theorem notEmpty_checks (v : Value) (args : Arguments) : Checks v (notEmpty v args) := by
  unfold notEmpty
  repeat' split
  all_goals first | exact .pass | exact .reject (by simp [Issue.stepKeys])

theorem wholeNumber_checks (v : Value) (args : Arguments) : Checks v (wholeNumber v args) := by
  unfold wholeNumber
  repeat' split
  all_goals first | exact .pass | exact .reject (by simp [Issue.stepKeys])

theorem unique_checks (v : Value) (args : Arguments) : Checks v (unique v args) := by
  unfold unique
  repeat' split
  all_goals first | exact .pass | exact .reject (by simp [Issue.stepKeys])

section

variable {key boundName : String} {ok : Binary64 → Binary64 → Bool}

theorem checkLength_checks (h : (key, [boundName, "actual"]) ∈ Issue.stepKeys) (v : Value)
    (args : Arguments) : Checks v (checkLength key boundName ok v args) := by
  unfold checkLength
  repeat' split
  all_goals first | exact .pass | exact .reject h | exact .reject (by simp [Issue.stepKeys])

theorem checkNumber_checks (h : (key, [boundName]) ∈ Issue.stepKeys) (v : Value)
    (args : Arguments) : Checks v (checkNumber key boundName ok v args) := by
  unfold checkNumber
  repeat' split
  all_goals first | exact .pass | exact .reject h | exact .reject (by simp [Issue.stepKeys])

theorem checkCount_checks (h : (key, [boundName, "actual"]) ∈ Issue.stepKeys) (v : Value)
    (args : Arguments) : Checks v (checkCount key boundName ok v args) := by
  unfold checkCount
  repeat' split
  all_goals first | exact .pass | exact .reject h | exact .reject (by simp [Issue.stepKeys])

theorem checkDate_checks {ok : Date → Date → Bool} (h : (key, [boundName]) ∈ Issue.stepKeys)
    (v : Value) (args : Arguments) : Checks v (checkDate key boundName ok v args) := by
  unfold checkDate
  repeat' split
  all_goals first | exact .pass | exact .reject h | exact .reject (by simp [Issue.stepKeys])

end

/-! ## The format processors -/

theorem parseNumber_reads (v : Value) (args : Arguments) : Reads (parseNumber v args) := by
  unfold parseNumber
  repeat' split
  all_goals first | exact .pass rfl | exact .reject (by simp [Issue.stepKeys])

theorem parseTruth_reads (v : Value) (args : Arguments) : Reads (parseTruth v args) := by
  unfold parseTruth
  split
  · exact .pass rfl
  · exact .reject (by simp [Issue.stepKeys])

theorem parseDate_reads (v : Value) (args : Arguments) : Reads (parseDate v args) := by
  unfold parseDate
  dsimp only
  split
  · exact .pass rfl
  · exact .reject (by simp [Issue.stepKeys])

/-! ## The registry -/

theorem regular_choice : ∀ p ∈ choice, p.Regular := by
  simp only [choice, List.forall_mem_cons]
  exact ⟨.of_check equals_checks, .of_check oneOf_checks, List.forall_mem_nil _⟩

theorem regular_texts : ∀ p ∈ texts, p.Regular := by
  simp only [texts, List.forall_mem_cons]
  exact ⟨.of_text _, .of_text _, .of_text _, .of_check notEmpty_checks,
    .of_check (checkLength_checks (by decide)), .of_check (checkLength_checks (by decide)),
    List.forall_mem_nil _⟩

theorem regular_numbers : ∀ p ∈ numbers, p.Regular := by
  simp only [numbers, List.forall_mem_cons]
  exact ⟨.of_format parseNumber_reads, .of_check (checkNumber_checks (by decide)),
    .of_check (checkNumber_checks (by decide)), .of_check wholeNumber_checks, List.forall_mem_nil _⟩

theorem regular_truth : ∀ p ∈ truth, p.Regular := by
  simp only [truth, List.forall_mem_cons]
  exact ⟨.of_format parseTruth_reads, List.forall_mem_nil _⟩

theorem regular_dates : ∀ p ∈ dates, p.Regular := by
  simp only [dates, List.forall_mem_cons]
  exact ⟨.of_format parseDate_reads, .of_check (checkDate_checks (by decide)),
    .of_check (checkDate_checks (by decide)), List.forall_mem_nil _⟩

theorem regular_lists : ∀ p ∈ lists, p.Regular := by
  simp only [lists, List.forall_mem_cons]
  exact ⟨.of_check (checkCount_checks (by decide)), .of_check (checkCount_checks (by decide)),
    .of_check unique_checks, List.forall_mem_nil _⟩

/-- The standard registry has nothing but the standard processors. -/
theorem mem_of_standard {key : String} {p : Processor}
    (h : Table.get? Registry.standard key = some p) :
    p ∈ choice ++ texts ++ numbers ++ truth ++ dates ++ lists := by
  rcases Table.mem_extend (Table.mem_of_get? h) with hmem | hmem
  · cases hmem
  · obtain ⟨q, hq, heq⟩ := List.mem_map.1 hmem
    obtain rfl : q = p := congrArg Prod.snd heq
    exact hq

/-- Every processor of the standard registry is regular. -/
theorem regular_of_standard {key : String} {p : Processor}
    (h : Table.get? Registry.standard key = some p) : p.Regular := by
  have hp := mem_of_standard h
  simp only [List.mem_append] at hp
  rcases hp with ((((hp | hp) | hp) | hp) | hp) | hp
  · exact regular_choice p hp
  · exact regular_texts p hp
  · exact regular_numbers p hp
  · exact regular_truth p hp
  · exact regular_dates p hp
  · exact regular_lists p hp

end Processor

end Intake
