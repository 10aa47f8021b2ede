import Intake.Json.Printer
import Intake.Processor.Standard
import Intake.Proofs.Json.Node
import Intake.Proofs.Number.Digits
import Intake.Proofs.Text.Plain
/-!
# Numerals

An integer can be supplied as a number or as its decimal text between blanks, which the format step
`number/parse` turns into a number.  Text is tried as an integer of a signed word only and then as a
binary64 number, while a number of JSON may also be an integer of an unsigned word.  So below
`2 ^ 63` the text gives the integer, and from `2 ^ 63` on the binary64 number nearest to it:

    number/parse of the text of n  =  pass (if n < 2 ^ 63 then int n else real (ofInt n))

Two texts give equal values if they spell one integer, and also if both integers are in the upper
half of the unsigned words and round to one binary64 number (`integer_texts`).
-/

namespace Intake

namespace Number

theorem isBlank_write {n : Int} : ∀ c ∈ (int n).write, Text.isBlank c = false := by
  have hdigits : ∀ m, ∀ c ∈ Nat.toDigits 10 m, Text.isBlank c = false := fun m c hc =>
    Text.isBlank_of_isDigit (List.all_eq_true.1 (all_isDigit_toDigits m) c hc)
  obtain ⟨m, rfl⟩ | ⟨m, hm, rfl⟩ := int_cases n
  · rw [write_ofNat]
    exact hdigits m
  · rw [write_neg hm]
    exact List.forall_mem_cons.2 ⟨by decide, hdigits m⟩

theorem write_ne_nil (n : Int) : (int n).write ≠ [] := by
  obtain ⟨m, rfl⟩ | ⟨m, hm, rfl⟩ := int_cases n
  · rw [write_ofNat]
    exact Nat.toDigits_ne_nil
  · rw [write_neg hm]
    exact List.cons_ne_nil _ _

end Number

namespace Processor

/-! ## Texts of integers -/

/-- The text is the decimal text of the integer between blanks. -/
def Numeral (n : Int) (s : String) : Prop :=
  ∃ before after, (∀ c ∈ before, Text.isBlank c = true) ∧ (∀ c ∈ after, Text.isBlank c = true) ∧
    s.toList = before ++ ((Number.int n).write ++ after)

/-- What the text of an integer is parsed as. -/
def numeralValue (n : Int) : Number := if n < 2 ^ 63 then .int n else .real (.ofInt n)

section

variable {m n : Int} {s : String}

theorem numberOfText_numeral (hn : Number.holdsInt n = true) (hs : Numeral n s) :
    numberOfText s = some (numeralValue n) := by
  obtain ⟨before, after, hbefore, hafter, htext⟩ := hs
  simp only [Number.holdsInt, Bool.and_eq_true, decide_eq_true_eq] at hn
  have hlow : -2 ^ 63 ≤ n := hn.1
  have hhigh : n < 2 ^ 64 := hn.2
  rw [numberOfText, htext,
    Text.trim_between hbefore Number.isBlank_write hafter (Number.write_ne_nil n),
    Number.readInt64_write, numeralValue]
  by_cases hword : n < 2 ^ 63
  · rw [if_pos ⟨hlow, hword⟩, if_pos hword]
  · obtain ⟨k, rfl⟩ : ∃ k : Nat, n = k := ⟨n.natAbs, by omega⟩
    rw [if_neg fun h => hword h.2, if_neg hword, Number.readReal_write (by omega)]
    rfl

theorem parseNumber_numeral (hn : Number.holdsInt n = true) (hs : Numeral n s) (args : Arguments) :
    parseNumber (.str s) args = .pass (.num (numeralValue n)) := by
  rw [parseNumber, numberOfText_numeral hn hs]

theorem numeralValue_eq_int : numeralValue n = .int n ↔ n < 2 ^ 63 := by
  rw [numeralValue]
  split
  · next h => exact iff_of_true rfl h
  · next h => exact iff_of_false nofun h

/-- Integers that are not zero are not rounded to zero, so equal values are equal numbers. -/
theorem same_ofInt (hm : m ≠ 0) :
    (Binary64.ofInt m).same (Binary64.ofInt n) = true ↔ Binary64.ofInt m = Binary64.ofInt n := by
  have hlow := (Binary64.rounds_ofInt hm).low
  have hzero : (Binary64.ofInt m).isZero = false := by
    rw [Binary64.isZero, beq_eq_false_iff_ne]
    omega
  simp [Binary64.same, hzero]

/-- When the texts of two integers give equal values. -/
theorem numeralValue_same :
    (numeralValue m).same (numeralValue n) = true ↔
      m = n ∨ 2 ^ 63 ≤ m ∧ 2 ^ 63 ≤ n ∧ Binary64.ofInt m = Binary64.ofInt n := by
  rw [numeralValue, numeralValue]
  split <;> split
  · next hm hn =>
    rw [Number.same, beq_iff_eq]
    omega
  · exact iff_of_false Bool.false_ne_true (by omega)
  · exact iff_of_false Bool.false_ne_true (by omega)
  · next hm hn =>
    rw [Number.same, same_ofInt (by omega)]
    constructor
    · exact fun h => .inr ⟨by omega, by omega, h⟩
    · rintro (rfl | ⟨-, -, h⟩)
      · rfl
      · exact h

theorem readValue_int (hn : Number.holdsInt n = true) :
    Json.readValue (Json.compact (.num (.int n))) = some (.num (.int n)) := by
  have hread :=
    Json.read_write (.num (.int n)) (by simpa [Value.numbers] using Number.readsBack_int hn)
  rw [Json.readValue, Json.compact, String.toList_ofList, hread]
  rfl

end

/-- The texts of two integers that JSON has, as `number/parse` of the standard registry takes them:
what the first gives, when that is what the integer itself gives, and when both give equal
values. -/
theorem integer_texts {m n : Int} {s t : String} (hm : Number.holdsInt m = true)
    (hn : Number.holdsInt n = true) (hs : Numeral m s) (ht : Numeral n t) (args : Arguments) :
    ∃ parse, Table.get? Registry.standard "number/parse" = some parse ∧
      Json.readValue (Json.compact (.num (.int m))) = some (.num (.int m)) ∧
      parse.run (.num (.int m)) args = .pass (.num (.int m)) ∧
      parse.run (.str s) args =
        .pass (.num (if m < 2 ^ 63 then .int m else .real (.ofInt m))) ∧
      (parse.run (.str s) args = parse.run (.num (.int m)) args ↔ m < 2 ^ 63) ∧
      (((parse.run (.str s) args).value == (parse.run (.str t) args).value) = true ↔
        m = n ∨ 2 ^ 63 ≤ m ∧ 2 ^ 63 ≤ n ∧ Binary64.ofInt m = Binary64.ofInt n) := by
  have hparse := parseNumber_numeral hm hs args
  have hparse' := parseNumber_numeral hn ht args
  refine ⟨_, rfl, readValue_int hm, rfl, hparse, ?_, ?_⟩
  · show parseNumber (.str s) args = .pass (.num (.int m)) ↔ m < 2 ^ 63
    rw [hparse, ← numeralValue_eq_int]
    constructor
    · intro h
      injection h with hvalue
      injection hvalue
    · intro h
      rw [h]
  · show ((parseNumber (.str s) args).value == (parseNumber (.str t) args).value) = true ↔ _
    rw [hparse, hparse']
    exact numeralValue_same

theorem integer_texts_ends :
    (Number.holdsInt 9223372036854775807 = true ∧ Number.holdsInt (-9223372036854775808) = true ∧
      Numeral 9223372036854775807 " 9223372036854775807\n" ∧
      Numeral (-9223372036854775808) "-9223372036854775808") ∧
    ∃ parse, Table.get? Registry.standard "number/parse" = some parse ∧
      parse.run (.str " 9223372036854775807\n") [] =
        parse.run (.num (.int 9223372036854775807)) [] ∧
      ((parse.run (.str " 9223372036854775807\n") []).value ==
        (parse.run (.str "-9223372036854775808") []).value) = false := by
  have htop : Number.holdsInt 9223372036854775807 = true := by decide
  have hbottom : Number.holdsInt (-9223372036854775808) = true := by decide
  have hs : Numeral 9223372036854775807 " 9223372036854775807\n" :=
    ⟨[' '], ['\n'], List.forall_mem_singleton.2 rfl, List.forall_mem_singleton.2 rfl, by decide⟩
  have ht : Numeral (-9223372036854775808) "-9223372036854775808" :=
    ⟨[], [], List.forall_mem_nil _, List.forall_mem_nil _, by decide⟩
  obtain ⟨parse, hget, -, -, -, hexact, hsame⟩ := integer_texts htop hbottom hs ht []
  exact ⟨⟨htop, hbottom, hs, ht⟩, parse, hget, hexact.2 (by decide),
    Bool.eq_false_iff.2 fun h => absurd (hsame.1 h) (by decide)⟩

/-- The text of an integer that JSON has is parsed as another number, and so is the text of its
successor, as the same one. -/
theorem integer_texts_rounded :
    Number.holdsInt 9223372036854775808 = true ∧ Number.holdsInt 9223372036854775809 = true ∧
    ∃ parse, Table.get? Registry.standard "number/parse" = some parse ∧
      (Json.readValue "9223372036854775808" == some (.num (.int 9223372036854775808))) = true ∧
      ((parse.run (.str "9223372036854775808") []).value ==
        .num (.int 9223372036854775808)) = false ∧
      ((parse.run (.str "9223372036854775808") []).value ==
        (parse.run (.str "9223372036854775809") []).value) = true := by
  refine ⟨by decide, by decide, _, rfl, ?_, ?_, ?_⟩
  · decide +kernel
  · decide +kernel
  · decide +kernel

end Processor

end Intake
