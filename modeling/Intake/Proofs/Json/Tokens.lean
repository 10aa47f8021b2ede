import Intake.Json.Printer
import Intake.Json.Token
import Intake.Proofs.Json.Text
/-!
# Tokens of a written value

The compact text of a value is read as the tokens of the value, whatever stands behind it, if only
it does not run on a number:

    Json.tokens (Json.write v) = some (tokensOf v)

Numbers are the one thing that is not written by the rules of the reader: that the token of a
number reads back as the number (`Number.ReadsBack`) is asked of every number of the value.
-/

namespace Intake

namespace Json

/-! ## Numbers -/

/-- A text that does not go on with a number. -/
def Stops (rest : List Char) : Prop :=
  ∀ c ∈ rest.head?, c.isDigit = false ∧ c ≠ '.' ∧ c ≠ 'e' ∧ c ≠ 'E'

theorem stops_nil : Stops [] := nofun

theorem stops_of_mem {c : Char} (h : c ∈ [',', ']', '\x7d']) (rest : List Char) :
    Stops (c :: rest) := by
  intro d hd
  obtain rfl := Option.some.inj hd
  simp only [List.mem_cons, List.not_mem_nil, or_false] at h
  rcases h with rfl | rfl | rfl <;> decide

section

variable {cs rest left : List Char}

theorem spanDigits_append (hrest : Stops rest) (cs : List Char) :
    spanDigits (cs ++ rest) = ((spanDigits cs).1, (spanDigits cs).2 ++ rest) := by
  induction cs with
  | nil =>
    cases rest with
    | nil => rfl
    | cons c rest =>
      have hc := (hrest c rfl).1
      simp [spanDigits, hc]
  | cons c cs ih =>
    simp only [spanDigits, Prod.mk.injEq] at ih
    cases hc : c.isDigit with
    | false => simp [spanDigits, hc]
    | true => simp [spanDigits, hc, ih.1, ih.2]

theorem readFraction_append (hrest : Stops rest) {fraction : Option (List Char)}
    (h : readFraction cs = some (fraction, left)) :
    readFraction (cs ++ rest) = some (fraction, left ++ rest) := by
  unfold readFraction at h
  split at h
  · next cs =>
    rw [List.cons_append, readFraction, spanDigits_append hrest]
    split at h
    · cases h
    · next ds after hne hds =>
      obtain ⟨rfl, rfl⟩ := Prod.mk.inj (Option.some.inj h)
      rw [hds]
      cases ds with
      | nil => exact absurd rfl hne
      | cons d ds => rfl
  · next hpoint =>
    obtain ⟨rfl, rfl⟩ := Prod.mk.inj (Option.some.inj h)
    cases cs with
    | cons c cs =>
      rw [List.cons_append, readFraction]
      exact fun cs' he => hpoint cs (by rw [(List.cons.inj he).1])
    | nil =>
      cases rest with
      | nil => rfl
      | cons c rest =>
        rw [List.nil_append, readFraction]
        exact fun cs' he => (hrest c rfl).2.1 (List.cons.inj he).1

theorem readPower_append (hrest : Stops rest) {negative : Bool}
    {exponent : Option (Bool × List Char)} (h : readPower negative cs = some (exponent, left)) :
    readPower negative (cs ++ rest) = some (exponent, left ++ rest) := by
  unfold readPower at h ⊢
  rw [spanDigits_append hrest]
  split at h
  · cases h
  · next ds after hne hds =>
    obtain ⟨rfl, rfl⟩ := Prod.mk.inj (Option.some.inj h)
    rw [hds]
    cases ds with
    | nil => exact absurd rfl hne
    | cons d ds => rfl

theorem readExponent_of_ne {c : Char} (h : ¬ (c = 'e' ∨ c = 'E')) (cs : List Char) :
    readExponent (c :: cs) = some (none, c :: cs) := by
  unfold readExponent
  dsimp only
  rw [if_neg h]

theorem readExponent_append (hrest : Stops rest) {exponent : Option (Bool × List Char)}
    (h : readExponent cs = some (exponent, left)) :
    readExponent (cs ++ rest) = some (exponent, left ++ rest) := by
  cases cs with
  | nil =>
    obtain ⟨rfl, rfl⟩ := Prod.mk.inj (Option.some.inj h)
    cases rest with
    | nil => rfl
    | cons c rest =>
      obtain ⟨-, -, he, hE⟩ := hrest c rfl
      exact readExponent_of_ne (not_or.2 ⟨he, hE⟩) rest
  | cons c cs =>
    by_cases hc : c = 'e' ∨ c = 'E'
    · unfold readExponent at h ⊢
      dsimp only [List.cons_append] at h ⊢
      rw [if_pos hc] at h ⊢
      split at h
      · exact readPower_append hrest h
      · exact readPower_append hrest h
      · next hplus hminus =>
        cases cs with
        | nil => cases h
        | cons d cs =>
          rw [← readPower_append hrest h, List.cons_append]
          split
          · next he => exact absurd (by rw [(List.cons.inj he).1]) (hplus cs)
          · next he => exact absurd (by rw [(List.cons.inj he).1]) (hminus cs)
          · rfl
    · rw [readExponent_of_ne hc] at h
      obtain ⟨rfl, rfl⟩ := Prod.mk.inj (Option.some.inj h)
      exact readExponent_of_ne hc _

/-- A number whose sign has been read. -/
def Figure.readUnsigned (negative : Bool) (cs : List Char) : Option (Figure × List Char) := do
  let (whole, cs) := spanDigits cs
  match whole with
  | [] => none
  | '0' :: _ :: _ => none
  | _ =>
    let (fraction, cs) ← readFraction cs
    let (exponent, cs) ← readExponent cs
    return ({ negative, whole, fraction, exponent }, cs)

theorem Figure.read_minus (cs : List Char) : Figure.read ('-' :: cs) = readUnsigned true cs := rfl

theorem Figure.read_of_ne {c : Char} (h : c ≠ '-') (cs : List Char) :
    Figure.read (c :: cs) = readUnsigned false (c :: cs) := by
  unfold Figure.read
  split
  next negative cs' he =>
    split at he
    · next hminus => exact absurd (List.cons.inj hminus).1 h
    · obtain ⟨rfl, rfl⟩ := Prod.mk.inj he
      rfl

theorem Figure.readUnsigned_append (hrest : Stops rest) {negative : Bool} {f : Figure}
    (h : readUnsigned negative cs = some (f, left)) :
    readUnsigned negative (cs ++ rest) = some (f, left ++ rest) := by
  unfold readUnsigned at h ⊢
  rw [spanDigits_append hrest]
  dsimp only at h ⊢
  split at h
  · cases h
  · cases h
  · next hnil hzero =>
    simp only [Option.bind_eq_bind, Option.bind_eq_some_iff] at h
    obtain ⟨⟨fraction, left'⟩, hfraction, ⟨exponent, left''⟩, hexponent, he⟩ := h
    obtain ⟨rfl, rfl⟩ := Prod.mk.inj (Option.some.inj he)
    rw [readFraction_append hrest hfraction]
    simp [readExponent_append hrest hexponent]

theorem Figure.read_append (hrest : Stops rest) {f : Figure} (h : Figure.read cs = some (f, left)) :
    Figure.read (cs ++ rest) = some (f, left ++ rest) := by
  cases cs with
  | nil => cases h
  | cons c cs =>
    by_cases hc : c = '-'
    · subst hc
      rw [read_minus] at h
      rw [List.cons_append, read_minus]
      exact readUnsigned_append hrest h
    · rw [read_of_ne hc] at h
      rw [List.cons_append, read_of_ne hc]
      exact readUnsigned_append hrest h

/-- A number starts with a minus or a digit. -/
theorem Figure.head_of_read {c : Char} {f : Figure} (h : Figure.read (c :: cs) = some (f, left)) :
    c = '-' ∨ c.isDigit = true := by
  by_cases hc : c = '-'
  · exact .inl hc
  · rw [read_of_ne hc] at h
    cases hdigit : c.isDigit with
    | true => exact .inr rfl
    | false =>
      unfold readUnsigned spanDigits at h
      simp [hdigit] at h

end

theorem Token.figure_of_read {cs left : List Char} {n : Option Number}
    (h : Token.read cs = some (.num n, left)) :
    ∃ f, Figure.read cs = some (f, left) ∧ f.value? = n := by
  unfold Token.read at h
  split at h
  all_goals first
    | cases h
    | obtain ⟨out, hout, he⟩ := Option.map_eq_some_iff.1 h
      cases he
      try exact ⟨_, hout, rfl⟩

theorem Token.read_of_figure {cs left : List Char} {f : Figure}
    (h : Figure.read cs = some (f, left)) : Token.read cs = some (.num f.value?, left) := by
  cases cs with
  | nil => cases h
  | cons c cs =>
    have hc := Figure.head_of_read h
    unfold Token.read
    split
    case h_12 => rw [h]; rfl
    case h_1 he => cases he
    all_goals
      next he =>
      rw [(List.cons.inj he).1] at hc
      exact absurd hc (by decide)

end Json

/-- The text of a number in JSON is one token, which stands for the number. -/
def Number.ReadsBack (n : Number) : Prop :=
  Json.Token.read n.write = some (.num (some n), [])

theorem Number.ReadsBack.read {n : Number} (h : n.ReadsBack) {rest : List Char}
    (hrest : Json.Stops rest) :
    Json.Token.read (n.write ++ rest) = some (.num (some n), rest) := by
  obtain ⟨f, hf, hvalue⟩ := Json.Token.figure_of_read h
  rw [Json.Token.read_of_figure (Json.Figure.read_append hrest hf), hvalue]
  rfl

namespace Value

mutual

/-- The numbers in a value. -/
def numbers : Value → List Number
  | num n => [n]
  | list items => itemNumbers items
  | object members => memberNumbers members
  | _ => []

def itemNumbers : List Value → List Number
  | [] => []
  | v :: vs => numbers v ++ itemNumbers vs

def memberNumbers : List (String × Value) → List Number
  | [] => []
  | (_, v) :: ms => numbers v ++ memberNumbers ms

end

end Value

namespace Json

/-! ## Texts and their tokens -/

mutual

/-- The tokens of a value. -/
def tokensOf : Value → List Token
  | .null => [.null]
  | .bool b => [.bool b]
  | .num n => [.num (some n)]
  | .str s => [.str (some s)]
  | .list [] => [.openList, .closeList]
  | .list (v :: vs) => .openList :: (tokensOf v ++ tokensOfItems vs)
  | .object [] => [.openObject, .closeObject]
  | .object ((k, v) :: ms) =>
    .openObject :: .str (some k) :: .colon :: (tokensOf v ++ tokensOfMembers ms)

/-- The tokens of the items after the first one. -/
def tokensOfItems : List Value → List Token
  | [] => [.closeList]
  | v :: vs => .comma :: (tokensOf v ++ tokensOfItems vs)

/-- The tokens of the members after the first one. -/
def tokensOfMembers : List (String × Value) → List Token
  | [] => [.closeObject]
  | (k, v) :: ms => .comma :: .str (some k) :: .colon :: (tokensOf v ++ tokensOfMembers ms)

end

/-- A text is words, one after the other, each of which is read as one token. -/
inductive Lexes : List Char → List Token → Prop
  | nil : Lexes [] []
  | cons {c : Char} {word rest : List Char} {t : Token} {ts : List Token}
      (hc : isBlank c = false) (h : Token.read (c :: (word ++ rest)) = some (t, rest))
      (hrest : Lexes rest ts) : Lexes (c :: (word ++ rest)) (t :: ts)

theorem Lexes.readAll {cs : List Char} {ts : List Token} (h : Lexes cs ts) {fuel : Nat}
    (hfuel : cs.length < fuel) : Token.readAll fuel cs = some ts := by
  induction h generalizing fuel with
  | nil =>
    obtain ⟨fuel, rfl⟩ := Nat.exists_eq_succ_of_ne_zero (Nat.ne_zero_of_lt hfuel)
    rfl
  | @cons c word rest t ts hc h _ ih =>
    obtain ⟨fuel, rfl⟩ := Nat.exists_eq_succ_of_ne_zero (Nat.ne_zero_of_lt hfuel)
    have hrest : rest.length < fuel := by
      simp only [List.length_cons, List.length_append] at hfuel
      omega
    rw [Token.readAll, List.dropWhile_cons_of_neg (by simp [hc])]
    simp [h, ih hrest]

section

variable {rest : List Char} {ts : List Token}

/-- One character that is a token whatever comes after it. -/
theorem Lexes.mark {c : Char} {t : Token} (hrest : Lexes rest ts) (hc : isBlank c = false)
    (h : Token.read (c :: rest) = some (t, rest)) : Lexes (c :: rest) (t :: ts) :=
  @Lexes.cons c [] rest t ts hc h hrest

theorem Lexes.string (s : String) (hrest : Lexes rest ts) :
    Lexes (writeString s ++ rest) (.str (some s) :: ts) := by
  obtain ⟨pieces, hpieces, hscan⟩ := exists_pieces s.toList rest
  have hread : Token.read ('"' :: (s.toList.flatMap escape ++ ['"'] ++ rest)) =
      some (.str (some s), rest) := by
    rw [List.append_assoc, List.singleton_append, Token.read, hscan]
    simp [joinPieces_of_spells hpieces]
  exact .cons (by decide) hread hrest

/-- A number, and what does not run on. -/
theorem Lexes.number {n : Number} (hn : n.ReadsBack) (hstops : Stops rest) (hrest : Lexes rest ts) :
    Lexes (n.write ++ rest) (.num (some n) :: ts) := by
  have hread := hn.read hstops
  obtain ⟨f, hf, -⟩ := Token.figure_of_read hn
  cases hwrite : n.write with
  | nil =>
    rw [hwrite] at hf
    cases hf
  | cons c word =>
    rw [hwrite] at hread hf
    refine .cons ?_ hread hrest
    rcases Figure.head_of_read hf with rfl | hdigit
    · decide
    · have hblank : ∀ b ∈ [' ', '\n', '\t', '\r'], b.isDigit = false := by
        simp only [List.forall_mem_cons]
        exact ⟨rfl, rfl, rfl, rfl, List.forall_mem_nil _⟩
      have hne : ∀ b ∈ [' ', '\n', '\t', '\r'], c ≠ b := by
        rintro b hb rfl
        exact absurd ((hblank c hb).symm.trans hdigit) nofun
      simp only [List.forall_mem_cons] at hne
      simp [isBlank, hne]

theorem stops_writeItems (vs : List Value) (rest : List Char) : Stops (writeItems vs ++ rest) := by
  cases vs with
  | nil => exact stops_of_mem (by decide) _
  | cons v vs => exact stops_of_mem (by decide) _

theorem stops_writeMembers (ms : List (String × Value)) (rest : List Char) :
    Stops (writeMembers ms ++ rest) := by
  cases ms with
  | nil => exact stops_of_mem (by decide) _
  | cons m ms => exact stops_of_mem (by decide) _

end

mutual

theorem lexes_write {rest : List Char} {ts : List Token} (v : Value)
    (hn : ∀ n ∈ v.numbers, n.ReadsBack) (hstops : Stops rest) (hrest : Lexes rest ts) :
    Lexes (write v ++ rest) (tokensOf v ++ ts) := by
  cases v with
  | null => exact @Lexes.cons 'n' ['u', 'l', 'l'] rest _ ts (by decide) rfl hrest
  | bool b =>
    cases b with
    | true => exact @Lexes.cons 't' ['r', 'u', 'e'] rest _ ts (by decide) rfl hrest
    | false => exact @Lexes.cons 'f' ['a', 'l', 's', 'e'] rest _ ts (by decide) rfl hrest
  | num n => exact .number (hn n List.mem_cons_self) hstops hrest
  | str s => exact .string s hrest
  | list items =>
    cases items with
    | nil => exact (hrest.mark (by decide) rfl).mark (by decide) rfl
    | cons v vs =>
      obtain ⟨hv, hvs⟩ := List.forall_mem_append.1 hn
      rw [write, tokensOf, List.cons_append, List.append_assoc, List.cons_append, List.append_assoc]
      exact (lexes_write v hv (stops_writeItems vs rest) (lexes_writeItems vs hvs hrest)).mark
        (by decide) rfl
  | object members =>
    cases members with
    | nil => exact (hrest.mark (by decide) rfl).mark (by decide) rfl
    | cons m ms =>
      obtain ⟨k, v⟩ := m
      obtain ⟨hv, hms⟩ := List.forall_mem_append.1 hn
      have hvalue := lexes_write v hv (stops_writeMembers ms rest) (lexes_writeMembers ms hms hrest)
      simp only [write, tokensOf, List.cons_append, List.append_assoc]
      exact (Lexes.string k (hvalue.mark (by decide) rfl)).mark (by decide) rfl

theorem lexes_writeItems {rest : List Char} {ts : List Token} (vs : List Value)
    (hn : ∀ n ∈ Value.itemNumbers vs, n.ReadsBack) (hrest : Lexes rest ts) :
    Lexes (writeItems vs ++ rest) (tokensOfItems vs ++ ts) := by
  cases vs with
  | nil => exact hrest.mark (by decide) rfl
  | cons v vs =>
    obtain ⟨hv, hvs⟩ := List.forall_mem_append.1 hn
    simp only [writeItems, tokensOfItems, List.cons_append, List.append_assoc]
    exact (lexes_write v hv (stops_writeItems vs rest) (lexes_writeItems vs hvs hrest)).mark
      (by decide) rfl

theorem lexes_writeMembers {rest : List Char} {ts : List Token} (ms : List (String × Value))
    (hn : ∀ n ∈ Value.memberNumbers ms, n.ReadsBack) (hrest : Lexes rest ts) :
    Lexes (writeMembers ms ++ rest) (tokensOfMembers ms ++ ts) := by
  cases ms with
  | nil => exact hrest.mark (by decide) rfl
  | cons m ms =>
    obtain ⟨k, v⟩ := m
    obtain ⟨hv, hms⟩ := List.forall_mem_append.1 hn
    have hvalue := lexes_write v hv (stops_writeMembers ms rest) (lexes_writeMembers ms hms hrest)
    simp only [writeMembers, tokensOfMembers, List.cons_append, List.append_assoc]
    exact (Lexes.string k (hvalue.mark (by decide) rfl)).mark (by decide) rfl

end

/-- The text of a value has the tokens of the value. -/
theorem tokens_write (v : Value) (hn : ∀ n ∈ v.numbers, n.ReadsBack) :
    tokens (write v) = some (tokensOf v) := by
  have h := lexes_write v hn stops_nil .nil
  rw [List.append_nil, List.append_nil] at h
  exact h.readAll (Nat.lt_succ_self _)

end Json

end Intake
