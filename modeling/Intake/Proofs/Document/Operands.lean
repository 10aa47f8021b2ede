import Mathlib.Data.List.Basic
import Intake.TextFormat
import Intake.Proofs.Value
/-!
# References and literals

An argument or a default is a reference or a value.  Read as what its form would be as a value
(`Form.literal?`), it is a reference exactly if that value is an object of one text, written as one
entry under `ref`, or a list of one text; of any other value it is the value itself:

    f.argument? = some a → f.Holds a.operand

What this needs of the two notations is that their scalars are scalars as values too, and that one
which counts as left out is null (`TextFormat.plain_of_form?`).
-/

namespace Intake

/-- A scalar is no list and no object, and only null may count as left out. -/
def FormScalar.Plain (s : FormScalar) : Prop :=
  ∀ v, s.value = some v → v.isComposite = false ∧ (s.absent = some true → v = .null)

namespace Form

/-- All scalars of a form are plain. -/
inductive Plain : Form → Prop
  | scalar {s : FormScalar} (h : s.Plain) : Plain (.scalar s)
  | list {items : List Form} {isRecord isValue : Bool} (h : ∀ f ∈ items, Plain f) :
      Plain (.list items isRecord isValue)
  | table {entries : List (FormKey × Form)} {choice : Option String} {isValue : Bool}
      (h : ∀ entry ∈ entries, Plain entry.2) : Plain (.table entries choice isValue)

/-- How many entries are written in a table. -/
def entryCount : Form → Nat
  | table entries _ _ => entries.length
  | _ => 0

/-- What is written as a form of value `v` stands for a reference. -/
def Names (f : Form) (v : Value) (dotted : String) : Prop :=
  v = .list [.str dotted] ∨ v = .object [("ref", .str dotted)] ∧ f.entryCount = 1

/-- An operand is what is written: a reference where the form stands for one, and otherwise the
value itself. -/
def Holds (f : Form) (o : Operand) : Prop :=
  ∀ v, f.literal? = some v →
    (∀ dotted, f.Names v dotted → o = .reference (.ofDotted dotted)) ∧
    ((∀ dotted, ¬ f.Names v dotted) → o = .literal v)

/-! ## Forms as values -/

theorem literal?_list {items : List Form} {isRecord isValue : Bool} {v : Value}
    (h : (list items isRecord isValue).literal? = some v) :
    isValue = true ∧ ∃ vs, List.Forall₂ (fun f v => f.literal? = some v) items vs ∧ v = .list vs := by
  have hitems : ∀ (items : List Form) (vs : List Value),
      itemValues? (·.value.bind Value.asString?) items = some vs →
      List.Forall₂ (fun f v => f.literal? = some v) items vs := by
    intro items
    induction items with
    | nil =>
      intro vs hvs
      obtain rfl := Option.some.inj hvs
      exact .nil
    | cons f rest ih =>
      intro vs hvs
      simp only [itemValues?, Option.bind_eq_bind, Option.bind_eq_some_iff] at hvs
      obtain ⟨w, hw, ws, hws, he⟩ := hvs
      obtain rfl := Option.some.inj he
      exact .cons hw (ih ws hws)
  unfold literal? at h
  rw [valueWith] at h
  split at h
  · next hvalue =>
    obtain ⟨vs, hvs, rfl⟩ := Option.map_eq_some_iff.1 h
    exact ⟨hvalue, vs, hitems items vs hvs, rfl⟩
  · cases h

theorem literal?_table {entries : List (FormKey × Form)} {choice : Option String} {isValue : Bool}
    {v : Value} (h : (table entries choice isValue).literal? = some v) :
    isValue = true ∧ ∃ members, v = .ofMembers members ∧
      List.Forall₂ (fun entry m => entry.1.value = some (.str m.1) ∧ entry.2.literal? = some m.2)
        entries members := by
  have hentries : ∀ (entries : List (FormKey × Form)) (members : List (String × Value)),
      memberValues? (·.value.bind Value.asString?) entries = some members →
      List.Forall₂ (fun entry m => entry.1.value = some (.str m.1) ∧ entry.2.literal? = some m.2)
        entries members := by
    intro entries
    induction entries with
    | nil =>
      intro members hm
      obtain rfl := Option.some.inj hm
      exact .nil
    | cons entry rest ih =>
      obtain ⟨k, f⟩ := entry
      intro members hm
      simp only [memberValues?, Option.bind_eq_bind, Option.bind_eq_some_iff] at hm
      obtain ⟨name, ⟨key, hkey, hname⟩, w, hw, ms, hms, he⟩ := hm
      obtain rfl := Option.some.inj he
      refine .cons ⟨?_, hw⟩ (ih ms hms)
      cases key <;> cases hname
      exact hkey
  unfold literal? at h
  rw [valueWith] at h
  split at h
  · next hvalue =>
    obtain ⟨members, hm, rfl⟩ := Option.map_eq_some_iff.1 h
    exact ⟨hvalue, members, rfl, hentries entries members hm⟩
  · cases h

/-- A text is a scalar that is a text as a value. -/
theorem string?_eq_some_iff {f : Form} {s : String} :
    f.string? = some s ↔ f.literal? = some (.str s) := by
  cases f with
  | scalar t =>
    show t.value.bind Value.asString? = some s ↔ t.value = some (.str s)
    cases t.value with
    | none => simp
    | some v => cases v <;> simp [Value.asString?]
  | list items isRecord isValue =>
    refine ⟨nofun, fun h => ?_⟩
    obtain ⟨-, vs, -, he⟩ := literal?_list h
    cases he
  | table entries choice isValue =>
    refine ⟨nofun, fun h => ?_⟩
    obtain ⟨-, members, he, -⟩ := literal?_table h
    cases he

/-! ## References -/

theorem reference?_eq_some_iff {f : Form} (hf : f.Plain) {v : Value} (hv : f.literal? = some v)
    {dotted : String} : f.reference? = some dotted ↔ f.Names v dotted := by
  cases hf with
  | @scalar s h =>
    have hcomposite := (h v hv).1
    refine ⟨nofun, ?_⟩
    rintro (rfl | ⟨rfl, -⟩) <;> cases hcomposite
  | @list items isRecord isValue h =>
    obtain ⟨rfl, vs, hvs, rfl⟩ := literal?_list hv
    have hnames : Names (.list items isRecord true) (.list vs) dotted ↔ vs = [.str dotted] := by
      simp [Names]
    rw [hnames]
    cases hvs with
    | nil => exact ⟨nofun, nofun⟩
    | @cons f w items vs hw hvs =>
      cases hvs with
      | cons _ _ => exact ⟨nofun, nofun⟩
      | nil =>
        show f.string? = some dotted ↔ _
        rw [string?_eq_some_iff, hw]
        simp
  | @table entries choice isValue h =>
    obtain ⟨rfl, members, rfl, hm⟩ := literal?_table hv
    have hnames : Names (.table entries choice true) (.ofMembers members) dotted ↔
        Value.ofMembers members = .object [("ref", .str dotted)] ∧ entries.length = 1 :=
      or_iff_right nofun
    rw [hnames]
    cases hm with
    | nil => exact ⟨nofun, nofun⟩
    | @cons entry m entries members hentry hm =>
      obtain ⟨k, f⟩ := entry
      obtain ⟨name, w⟩ := m
      obtain ⟨hkey, hw⟩ := hentry
      have hkey : k.value = some (.str name) := hkey
      have hw : f.literal? = some w := hw
      cases hm with
      | cons _ _ => exact ⟨nofun, nofun⟩
      | nil =>
        show (if isRefKey k then f.string? else none) = some dotted ↔
          Value.object [(name, w)] = .object [("ref", .str dotted)] ∧ 1 = 1
        have hrefkey : isRefKey k = (name == "ref") := by rw [isRefKey, hkey]
        rw [hrefkey]
        split
        · next hname =>
          rw [string?_eq_some_iff, hw]
          simp [eq_of_beq hname]
        · next hname => simp_all

/-- An argument that is read is what is written. -/
theorem holds_of_argument? {f : Form} (hf : f.Plain) {a : ArgSpec} (ha : f.argument? = some a) :
    f.Holds a.operand := by
  intro v hv
  have hreference : ∀ dotted, f.reference? = some dotted ↔ f.Names v dotted :=
    fun _ => reference?_eq_some_iff hf hv
  rw [argument?] at ha
  cases href : f.reference? with
  | some dotted =>
    rw [href] at ha
    obtain rfl := Option.some.inj ha
    refine ⟨fun other hother => ?_, fun hnot => absurd ((hreference dotted).1 href) (hnot dotted)⟩
    obtain rfl := Option.some.inj (href.symm.trans ((hreference other).2 hother))
    rfl
  | none =>
    rw [href, hv] at ha
    obtain rfl := Option.some.inj ha
    refine ⟨fun dotted hnames => ?_, fun _ => rfl⟩
    exact absurd ((hreference dotted).2 hnames) (by rw [href]; nofun)

/-- A value other than null does not count as left out. -/
theorem absent?_eq_some {f : Form} (hf : f.Plain) {v : Value} (hv : f.literal? = some v)
    (hnull : v ≠ .null) {left : Bool} (h : f.absent? = some left) : left = false := by
  cases hf with
  | scalar hs =>
    cases left with
    | false => rfl
    | true => exact absurd ((hs v hv).2 h) hnull
  | list _ => exact (Option.some.inj h).symm
  | table _ => exact (Option.some.inj h).symm

/-- The members of a record are forms of its entries. -/
theorem forall_of_membersOfEntries {P : Form → Prop} {names : List String}
    {entries : List (FormKey × Form)} (hentries : ∀ entry ∈ entries, P entry.2)
    {ms : List (String × Form)} (h : membersOfEntries names entries = some ms) :
    ∀ m ∈ ms, P m.2 := by
  induction entries generalizing ms with
  | nil => exact Option.some.inj h ▸ fun _ hm => absurd hm List.not_mem_nil
  | cons entry rest ih =>
    obtain ⟨hentry, hrest⟩ := List.forall_mem_cons.1 hentries
    simp only [membersOfEntries, Option.bind_eq_bind, Option.bind_eq_some_iff] at h
    obtain ⟨name, -, others, hothers, h⟩ := h
    split at h
    · exact Option.some.inj h ▸ List.forall_mem_cons.2 ⟨hentry, ih hrest hothers⟩
    · cases h

end Form

/-! ## The two notations -/

namespace Json

theorem plain_scalarForm {v : Value} (h : v.isComposite = false) : (scalarForm v).Plain := by
  refine .scalar fun w hw => ?_
  obtain rfl := Option.some.inj hw
  refine ⟨h, fun habsent => ?_⟩
  cases v <;> first | rfl | cases habsent

/-- The key of a JSON object. -/
def keyForm (key : String) : FormKey := ⟨some key, some (.str key)⟩

end Json

/-- A form of JSON whose lists and objects are nested at most `depth` deep. -/
inductive Form.OfJson : Nat → Form → Prop
  | scalar {depth : Nat} {v : Value} (h : v.isComposite = false) : OfJson depth (Json.scalarForm v)
  | list {depth : Nat} {items : List Form} (h : ∀ f ∈ items, OfJson depth f) :
      OfJson (depth + 1) (.list items true true)
  | table {depth : Nat} {entries : List (FormKey × Form)} {choice : Option String}
      (hkeys : ∀ entry ∈ entries, ∃ key, entry.1 = Json.keyForm key)
      (h : ∀ entry ∈ entries, OfJson depth entry.2) : OfJson (depth + 1) (.table entries choice true)

theorem Form.OfJson.plain {depth : Nat} {f : Form} (h : f.OfJson depth) : f.Plain := by
  induction h with
  | scalar h => exact Json.plain_scalarForm h
  | list _ ih => exact .list ih
  | table _ _ ih => exact .table ih

namespace Json

mutual

theorem ofJson_of_formAt (depth : Nat) (n : Node) (f : Form) (h : formAt depth n = some f) :
    f.OfJson depth := by
  match n with
  | .null => exact Option.some.inj h ▸ .scalar rfl
  | .bool b => exact Option.some.inj h ▸ .scalar rfl
  | .num n =>
    obtain ⟨n, -, rfl⟩ := Option.map_eq_some_iff.1 h
    exact .scalar rfl
  | .str s =>
    obtain ⟨s, -, rfl⟩ := Option.map_eq_some_iff.1 h
    exact .scalar rfl
  | .list items =>
    cases depth with
    | zero => cases h
    | succ depth =>
      obtain ⟨fs, hfs, rfl⟩ := Option.map_eq_some_iff.1 h
      exact .list (ofJson_of_formItems depth items fs hfs)
  | .object members =>
    cases depth with
    | zero => cases h
    | succ depth =>
      simp only [formAt, Option.bind_eq_bind, Option.bind_eq_some_iff] at h
      obtain ⟨entries, hentries, he⟩ := h
      obtain rfl := Option.some.inj he
      have hall := ofJson_of_formMembers depth members entries hentries
      exact .table (fun entry hentry => (hall entry hentry).1) fun entry hentry =>
        (hall entry hentry).2

theorem ofJson_of_formItems (depth : Nat) (items : List Node) (fs : List Form)
    (h : formItems depth items = some fs) : ∀ f ∈ fs, f.OfJson depth := by
  match items with
  | [] =>
    obtain rfl := Option.some.inj h
    exact fun _ hf => absurd hf List.not_mem_nil
  | n :: ns =>
    simp only [formItems, Option.bind_eq_bind, Option.bind_eq_some_iff] at h
    obtain ⟨f, hf, rest, hrest, he⟩ := h
    obtain rfl := Option.some.inj he
    exact List.forall_mem_cons.2
      ⟨ofJson_of_formAt depth n f hf, ofJson_of_formItems depth ns rest hrest⟩

theorem ofJson_of_formMembers (depth : Nat) (members : List (Option String × Node))
    (entries : List (FormKey × Form)) (h : formMembers depth members = some entries) :
    ∀ entry ∈ entries, (∃ key, entry.1 = keyForm key) ∧ entry.2.OfJson depth := by
  match members with
  | [] =>
    obtain rfl := Option.some.inj h
    exact fun _ hf => absurd hf List.not_mem_nil
  | (k, n) :: ms =>
    simp only [formMembers, Option.bind_eq_bind, Option.bind_eq_some_iff] at h
    obtain ⟨key, -, f, hf, rest, hrest, he⟩ := h
    obtain rfl := Option.some.inj he
    exact List.forall_mem_cons.2
      ⟨⟨⟨key, rfl⟩, ofJson_of_formAt depth n f hf⟩, ofJson_of_formMembers depth ms rest hrest⟩

end

theorem ofJson_of_readForm {text : String} {f : Form} (h : readForm text = some f) :
    f.OfJson maxDepth := by
  obtain ⟨n, -, hn⟩ := Option.bind_eq_some_iff.1 h
  exact ofJson_of_formAt maxDepth n f hn

end Json

namespace Yaml

theorem intValue?_scalar {n : Int} {v : Value} (h : intValue? n = some v) :
    v.isComposite = false := by
  unfold intValue? at h
  split at h
  · exact Option.some.inj h ▸ rfl
  · cases h

theorem realValue?_scalar {s : String} {v : Value} (h : realValue? s = some v) :
    v.isComposite = false := by
  unfold realValue? at h
  split at h
  · exact Option.some.inj h ▸ rfl
  · split at h
    · cases h
    · cases h
    · obtain ⟨x, -, rfl⟩ := Option.map_eq_some_iff.1 h
      rfl

theorem plainValue?_scalar {s : String} {v : Value} (h : plainValue? s = some v) :
    v.isComposite = false := by
  have hword : wordValue? s = some v → v.isComposite = false := by
    unfold wordValue?
    dsimp only
    split
    · exact intValue?_scalar
    · intro hv
      obtain rfl := Option.some.inj hv
      split
      · rfl
      · cases hreal : realValue? s with
        | none => rfl
        | some w => exact realValue?_scalar hreal
  unfold plainValue? at h
  split at h
  · exact Option.some.inj h ▸ rfl
  · split at h
    · exact Option.some.inj h ▸ rfl
    · exact hword h

theorem scalarValue?_scalar {tag : Option String} {s : String} {style : Style} {v : Value}
    (h : scalarValue? tag s style = some v) : v.isComposite = false := by
  unfold scalarValue? at h
  split at h
  · split at h
    · exact plainValue?_scalar h
    · exact Option.some.inj h ▸ rfl
  · split at h
    · obtain ⟨b, -, rfl⟩ := Option.map_eq_some_iff.1 h
      rfl
    · split at h
      · obtain ⟨n, -, hn⟩ := Option.bind_eq_some_iff.1 h
        exact intValue?_scalar hn
      · split at h
        · exact realValue?_scalar h
        · split at h
          · split at h
            · exact Option.some.inj h ▸ rfl
            · cases h
          · split at h
            · cases h
            · exact Option.some.inj h ▸ rfl

/-- What counts as left out is null by its text, without a tag or with that of null. -/
theorem eq_null_of_isAbsent? {tag : Option String} {s : String} {style : Style} {v : Value}
    (h : isAbsent? tag s style = some true) (hv : scalarValue? tag s style = some v) :
    v = .null := by
  unfold isAbsent? at h
  split at h
  · cases h
  · next hstyle =>
    have hstyle : style = .plain := Decidable.not_not.1 hstyle
    cases tag with
    | none =>
      have hempty : s.isEmpty = true ∨ isNullWord s = true := by simpa using h
      rw [scalarValue?, if_pos hstyle, plainValue?, if_pos hempty] at hv
      exact (Option.some.inj hv).symm
    | some t =>
      dsimp only at h
      split at h
      · next ht =>
        split at h
        · next hword =>
          have hvalue : scalarValue? (some nullTag) s style =
              if isNullWord s then some .null else none := rfl
          rw [ht, hvalue, if_pos hword] at hv
          exact (Option.some.inj hv).symm
        · cases h
      · cases h

theorem plain_scalarForm (tag : Option String) (s : String) (style : Style) :
    (scalarForm tag s style).Plain := fun _ hv =>
  ⟨scalarValue?_scalar hv, fun habsent => eq_null_of_isAbsent? habsent hv⟩

/-- What every run of `f` makes of an item is what stands in the result. -/
theorem forall_of_mapM {α β : Type} {P : β → Prop} {f : α → Expand β} {l : List α}
    (hf : ∀ a ∈ l, ∀ left out, f a left = some out → P out.1) {left : Nat} {out : List β × Nat}
    (h : l.mapM f left = some out) : ∀ b ∈ out.1, P b := by
  induction l generalizing left out with
  | nil =>
    obtain rfl := Option.some.inj h
    exact fun _ hb => absurd hb List.not_mem_nil
  | cons a rest ih =>
    rw [List.mapM_cons] at h
    obtain ⟨first, hfirst, h⟩ := Option.bind_eq_some_iff.1 h
    obtain ⟨others, hothers, h⟩ := Option.bind_eq_some_iff.1 h
    obtain rfl := Option.some.inj h
    exact List.forall_mem_cons.2 ⟨hf a List.mem_cons_self left first hfirst,
      ih (fun b hb => hf b (List.mem_cons_of_mem _ hb)) hothers⟩

theorem plain_of_expand (d : Document) (depth : Nat) (n : Node) (left : Nat) (out : Form × Nat)
    (h : expand d depth n left = some out) : out.1.Plain := by
  induction depth generalizing n left out with
  | zero =>
    cases n with
    | scalar mark text style =>
      obtain rfl := Option.some.inj h
      exact .scalar (plain_scalarForm mark.tag text style)
    | _ => cases h
  | succ depth ih =>
    cases n with
    | scalar mark text style =>
      obtain rfl := Option.some.inj h
      exact .scalar (plain_scalarForm mark.tag text style)
    | list mark items =>
      obtain ⟨fs, hfs, h⟩ := Option.bind_eq_some_iff.1 h
      obtain rfl := Option.some.inj h
      refine .list (forall_of_mapM (fun n _ left out hout => ?_) hfs)
      obtain ⟨target, -, hout⟩ := Option.bind_eq_some_iff.1 hout
      exact ih target.1 target.2 out hout
    | table mark entries =>
      obtain ⟨es, hes, h⟩ := Option.bind_eq_some_iff.1 h
      obtain rfl := Option.some.inj h
      refine .table (forall_of_mapM (P := fun e => e.2.Plain) (fun e _ left out hout => ?_) hes)
      obtain ⟨target, -, hout⟩ := Option.bind_eq_some_iff.1 hout
      obtain ⟨⟨key, left'⟩, -, hout⟩ := Option.bind_eq_some_iff.1 hout
      dsimp only at hout
      cases hkey : keyOf? key with
      | none =>
        rw [hkey] at hout
        cases hout
      | some k =>
        rw [hkey] at hout
        obtain ⟨value, -, hout⟩ := Option.bind_eq_some_iff.1 hout
        obtain ⟨out', hout', hout⟩ := Option.bind_eq_some_iff.1 hout
        obtain rfl := Option.some.inj hout
        exact ih value.1 value.2 out' hout'
    | aliasOf number => cases h

end Yaml

namespace TextFormat

/-- In both notations the scalars are plain. -/
theorem plain_of_form? {format : TextFormat} {text : String} {f : Form}
    (h : format.form? text = some f) : f.Plain := by
  cases format with
  | json =>
    exact (Json.ofJson_of_readForm h).plain
  | yaml =>
    obtain ⟨tokens, -, h⟩ := Option.bind_eq_some_iff.1 h
    obtain ⟨d, -, hf⟩ := Option.bind_eq_some_iff.1 h
    unfold Yaml.Document.form? at hf
    split at hf
    · obtain rfl := Option.some.inj hf
      refine .scalar fun v hv => ?_
      obtain rfl := Option.some.inj hv
      exact ⟨rfl, fun _ => rfl⟩
    · next root _ =>
      obtain ⟨out, hout, rfl⟩ := Option.map_eq_some_iff.1 hf
      exact Yaml.plain_of_expand d _ root _ out hout

end TextFormat

end Intake
