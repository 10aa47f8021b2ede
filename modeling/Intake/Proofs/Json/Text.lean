import Mathlib.Data.List.Basic
import Intake.Json.Text
/-!
# Strings that are read again

A written string is scanned up to its closing quote, whatever follows, and its pieces spell the
string:

    scan (s.flatMap escape ++ '"' :: rest) = some (pieces, rest), joinPieces pieces = some s

Every character is written as one piece: itself, or the unit of a control character.
-/

namespace Intake.Json

/-- A piece that stands for one character, whatever comes after it. -/
inductive Spells : Piece → Char → Prop
  | char (c : Char) : Spells (.char c) c
  | unit {n : Nat} (h : n < 32) : Spells (.unit n) (Char.ofNat n)

theorem Spells.joinPieces {p : Piece} {c : Char} (h : Spells p c) (rest : List Piece) :
    joinPieces (p :: rest) = (c :: ·) <$> joinPieces rest := by
  cases h with
  | char => rw [Json.joinPieces]
  | @unit n h =>
    have hleading : isLeading n = false := by simp [isLeading]; omega
    have htrailing : isTrailing n = false := by simp [isTrailing]; omega
    cases rest with
    | nil => simp [Json.joinPieces, hleading, htrailing]
    | cons q rest => cases q <;> simp [Json.joinPieces, hleading, htrailing]

theorem joinPieces_of_spells {pieces : List Piece} {cs : List Char}
    (h : List.Forall₂ Spells pieces cs) : joinPieces pieces = some cs := by
  induction h with
  | nil => rfl
  | cons hp _ ih => rw [hp.joinPieces, ih]; rfl

/-! ## Scanning -/

section

variable {rest : List Char}

theorem scan_short {e c : Char} (h : shortEscape? e = some c) :
    scan ('\\' :: e :: rest) = (scan rest).map fun p => (.char c :: p.1, p.2) := by
  have hu : e ≠ 'u' := by
    rintro rfl
    cases h
  rw [scan]
  · rw [h]
    cases scan rest <;> rfl
  · exact fun _ _ _ _ _ he => absurd he hu

theorem scan_unit {a b c d : Char} {n : Nat} (h : hexUnit? a b c d = some n) :
    scan ('\\' :: 'u' :: a :: b :: c :: d :: rest) =
      (scan rest).map fun p => (.unit n :: p.1, p.2) := by
  rw [scan, h]
  cases scan rest <;> rfl

theorem scan_plain {c : Char} (hquote : c ≠ '"') (hslash : c ≠ '\\') (hcontrol : ¬ c < ' ') :
    scan (c :: rest) = (scan rest).map fun p => (.char c :: p.1, p.2) := by
  rw [scan]
  · rw [if_neg (by simp [hslash, hcontrol])]
    cases scan rest <;> rfl
  · exact hquote
  · simp [hslash]
  · simp [hslash]

end

/-- The unit of a control character. -/
theorem hexUnit?_of_control {n : Nat} (h : n < 32) :
    hexUnit? '0' '0' (lowerHex (n / 16)) (lowerHex (n % 16)) = some n := by
  revert n
  decide

/-- Every character is scanned as one piece that spells it. -/
theorem exists_piece (c : Char) : ∃ p, Spells p c ∧ ∀ rest,
    scan (escape c ++ rest) = (scan rest).map fun r => (p :: r.1, r.2) := by
  unfold escape
  split
  case h_8 _ hquote hslash _ _ _ _ _ =>
    split
    · next hcontrol =>
      have hn : c.toNat < 32 := UInt32.lt_iff_toNat_lt.1 hcontrol
      refine ⟨.unit c.toNat, ?_, fun rest => scan_unit (hexUnit?_of_control hn)⟩
      simpa using Spells.unit hn
    · next hcontrol => exact ⟨.char c, .char c, fun rest => scan_plain hquote hslash hcontrol⟩
  all_goals exact ⟨.char _, .char _, fun rest => scan_short rfl⟩

theorem exists_pieces (cs rest : List Char) : ∃ pieces, List.Forall₂ Spells pieces cs ∧
    scan (cs.flatMap escape ++ '"' :: rest) = some (pieces, rest) := by
  induction cs with
  | nil => exact ⟨[], .nil, by rw [List.flatMap_nil, List.nil_append, scan]⟩
  | cons c cs ih =>
    obtain ⟨p, hp, hscan⟩ := exists_piece c
    obtain ⟨pieces, hpieces, hrest⟩ := ih
    refine ⟨p :: pieces, .cons hp hpieces, ?_⟩
    rw [List.flatMap_cons, List.append_assoc, hscan, hrest]
    rfl

end Intake.Json
