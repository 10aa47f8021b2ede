import Intake.Proofs.Entity.Standard
/-!
# What standard entities make

What a standard entity makes of an untouched tracker is one of two things: either there are no
children, and a value of a typed kind that was there has met an issue (`Unreached`), or the entity
has made what its kind asks for (`Made`): an object that names its failing members, a list that
names its failing items, or a value of its type unless there are issues.

    e.Standard → k.Untouched → e.Makes parts k l → Unreached kind k l ∨ Made parts kind k l
-/

namespace Intake

/-- The values of a kind that has a type of its own; a date is a string. -/
def Kind.typeTest? : Kind → Option (Value → Bool)
  | .string => some (TypeCheck.accepts .string)
  | .number => some (TypeCheck.accepts .number)
  | .boolean => some (TypeCheck.accepts .boolean)
  | .date => some (TypeCheck.accepts .string)
  | .array _ => some fun v => v.asList?.isSome
  | .object _ => some fun v => v.asObject?.isSome
  | _ => none

/-- The issues in which a tracker speaks for its children. -/
def Tracker.spoken (k : Tracker) : List Issue :=
  k.issues.filter fun issue => Issue.speaksFor issue.key

/-- An object has been made of a tracker: each member has a child that began with the value of
its key, and the members that fail are named. -/
structure MadeObject (parts : String → Part) (names : List String) (k l : Tracker) : Prop where
  children : Table.names l.children = names
  raw : ∀ name ∈ names, (parts name).raw = k.value.bind (·.under? name)
  spoken : l.spoken =
    naming "object/members" "fields" ((names.filter fun name => (parts name).failing).map .str)
  value : ∃ output, l.value = some (.object output) ∧
    ∀ name ∈ names, name ∈ output.map (·.1) ↔ (parts name).value.isSome

/-- A list has been made of a tracker: each item has a child that began with it, and the items
that fail are named. -/
structure MadeList (parts : String → Part) (n : Nat) (k l : Tracker) : Prop where
  children : Table.names l.children = (List.range n).map toString
  raw : ∀ i < n, (parts (toString i)).raw = k.value.bind (·.under? (toString i))
  spoken : l.spoken = naming "array/items" "indexes"
    (((List.range n).filter fun i => (parts (toString i)).failing).map .ofNat)
  value : ∃ items, l.value = some (.list items)

/-- A tracker has been processed that has no children. -/
structure MadeLeaf (type? : Option (Value → Bool)) (l : Tracker) : Prop where
  children : l.children = []
  quiet : l.Quiet
  value : ∀ ok, type? = some ok → l.hasIssues = true ∨ l.value.any ok = true

/-- What is made of a tracker by its kind. -/
def Made (parts : String → Part) (kind : Kind) (k l : Tracker) : Prop :=
  match kind with
  | .object fields => MadeObject parts (fields.map (·.1)) k l
  | .array (some _) => ∃ n, MadeList parts n k l
  | kind => MadeLeaf kind.typeTest? l

/-- The children were not reached. -/
structure Unreached (type? : Option (Value → Bool)) (k l : Tracker) : Prop where
  children : l.children = []
  quiet : l.Quiet
  failed : type?.isSome = true → k.value.isSome = true → l.hasIssues = true

open Tracker

section

variable {e : Entity} {parts : String → Part} {k l : Tracker} {hooks : Hooks}

/-- The presence rules around a standard pipeline. -/
theorem judges_made {Q : Tracker → Prop} {source : Chain} {pipeline : Pipeline} {body : Body}
    {inspect convert : Change} (hp : pipeline.Registered Registry.standard)
    (hchildren : k.children = []) (hissues : k.issues = [])
    (h : Change.judges parts source body k l)
    (hbody : ∀ l, Change.behaves parts body k l → Change.pipeline pipeline inspect convert k l)
    (inspected : ∀ k' l', k'.children = [] → k'.Quiet →
      (k'.value = k.value ∨ k'.value.any Value.isComposite = false) →
      inspect k' l' → l'.Stopped ∨ Q l')
    (treated : ∀ k' l', Q k' → Treated k' l' → Q l')
    (converted : ∀ k' l', Q k' → convert k' l' → Q l') :
    (l.children = [] ∧ l.Quiet ∧ (k.value.isSome = true → l.hasIssues = true)) ∨ Q l := by
  have hquiet : k.Quiet := quiet_of_nil hissues
  have hstopped : ∀ key, Issue.speaksFor key = false → l = k.record (.of key []) →
      l.children = [] ∧ l.Quiet ∧ (k.value.isSome = true → l.hasIssues = true) := by
    rintro key hkey rfl
    have hstop := Stopped.record hchildren hquiet hkey []
    exact ⟨hstop.children, hstop.quiet, fun _ => hstop.issues⟩
  cases h.judged with
  | missing _ _ => exact .inl (hstopped _ (by decide) rfl)
  | substituted hv _ h =>
    obtain ⟨v, rfl | ⟨n, rfl⟩⟩ := Change.substitutes_eq h
    · exact .inl ⟨hchildren, hquiet, hv ▸ nofun⟩
    · exact .inl ⟨hchildren, hquiet, hv ▸ nofun⟩
  | forbidden _ _ => exact .inl (hstopped _ (by decide) rfl)
  | behaved _ _ h =>
    have hmade :=
      Change.pipeline_made hp (hbody l h) hchildren hissues inspected treated converted
    exact hmade.imp_left fun hstop => ⟨hstop.children, hstop.quiet, fun _ => hstop.issues⟩

/-! ## Objects and lists -/

theorem spoken_of_quiet (h : k.Quiet) : k.spoken = [] :=
  List.filter_eq_nil_iff.2 fun issue hissue => by simp [h issue hissue]

/-- Steps do not speak for children. -/
theorem spoken_treated (h : Treated k l) : l.spoken = k.spoken := by
  obtain ⟨new, hnew, hquiet⟩ := h.issues
  have hnone : new.filter (fun issue => Issue.speaksFor issue.key) = [] :=
    List.filter_eq_nil_iff.2 fun issue hissue => by
      simp [Issue.speaksFor_eq_false (hquiet issue hissue)]
  rw [Tracker.spoken, hnew, List.filter_append, hnone, List.append_nil]
  rfl

/-- An issue that names some values speaks for them, or it does not. -/
theorem filter_naming (key arg : String) (values : List Value) :
    (naming key arg values).filter (fun issue => Issue.speaksFor issue.key) =
      if Issue.speaksFor key then naming key arg values else [] := by
  unfold naming
  split
  · simp
  · cases h : Issue.speaksFor key <;> simp [Issue.of, h]

/-- The declared keys of an object are those of its defined members. -/
theorem mem_keys_outputOf {policy : UnknownKeys} {names : List String}
    {input : List (String × Value)} {name : String} (hname : name ∈ names) :
    name ∈ (outputOf parts policy names input).map (·.1) ↔ (parts name).value.isSome = true := by
  have hunknown : name ∉ (if policy = .allow then
      input.filter fun m => !names.contains m.1 else []).map (·.1) := by
    split
    · intro hmem
      obtain ⟨m, hm, rfl⟩ := List.mem_map.1 hmem
      simp [hname] at hm
    · exact List.not_mem_nil
  rw [outputOf, List.map_append, List.mem_append, or_iff_left hunknown]
  constructor
  · intro hmem
    obtain ⟨m, hm, rfl⟩ := List.mem_map.1 hmem
    obtain ⟨name, -, hvalue⟩ := List.mem_filterMap.1 hm
    obtain ⟨v, hv, rfl⟩ := Option.map_eq_some_iff.1 hvalue
    rw [hv]
    rfl
  · intro hsome
    obtain ⟨v, hv⟩ := Option.isSome_iff_exists.1 hsome
    exact List.mem_map.2 ⟨(name, v), List.mem_filterMap.2 ⟨name, hname, by rw [hv]; rfl⟩, rfl⟩

variable {k' l' : Tracker}

/-- A value of the wrong type ends it. -/
theorem Tracker.Stopped.refused {key : String} {accepts : Value → Bool}
    (hchildren : k'.children = []) (hquiet : k'.Quiet)
    (check : hooks.check? = some (key, accepts)) : (k'.record (.of key [])).Stopped := by
  have hsilent : ∀ key ∈ Issue.typeKeys, Issue.speaksFor key = false := by decide
  exact .record hchildren hquiet (hsilent key (Hooks.key_mem check)) []

/-- Objects are put together of their members. -/
theorem MadeObject.of_inspects {members : List (String × Entity)} {schedule : Schedule String}
    {policy : UnknownKeys} {escaping : List Path} (hchildren : k'.children = []) (hquiet : k'.Quiet)
    (hvalue : k'.value = k.value ∨ k'.value.any Value.isComposite = false)
    (h : Change.inspects parts (.object members schedule policy escaping) k' l') :
    l'.Stopped ∨ MadeObject parts (members.map (·.1)) k l' := by
  cases h.inspected with
  | kept leaf _ => exact leaf.elim
  | refused check _ => exact .inl (.refused hchildren hquiet check)
  | @members _ _ _ _ input _ hv hnames hraw =>
    have hk : k.value = some (.object input) := by
      rcases hvalue with hvalue | hnone
      · exact hvalue.symm.trans hv
      · rw [hv] at hnone
        cases hnone
    refine .inr ⟨hnames, fun name hname => ?_, ?_, ?_⟩
    · obtain ⟨m, hm, rfl⟩ := List.mem_map.1 hname
      rw [hraw m hm, hk]
      rfl
    · show ((k'.issues ++ _ ++ _).filter _) = _
      rw [List.filter_append, List.filter_append, filter_naming, filter_naming]
      simp only [show Issue.speaksFor "object/members" = true from by decide,
        show Issue.speaksFor "object/unknown-keys" = false from by decide, if_pos]
      rw [show k'.issues.filter (fun issue => Issue.speaksFor issue.key) = [] from
        spoken_of_quiet hquiet]
      simp
    · exact ⟨_, rfl, fun name hname => Value.mem_keys_sortMembers.trans (mem_keys_outputOf hname)⟩

/-- Lists are put together of their items. -/
theorem MadeList.of_inspects {items : Entity} (hchildren : k'.children = []) (hquiet : k'.Quiet)
    (hvalue : k'.value = k.value ∨ k'.value.any Value.isComposite = false)
    (h : Change.inspects parts (.array (some items)) k' l') :
    l'.Stopped ∨ ∃ n, MadeList parts n k l' := by
  cases h.inspected with
  | kept leaf _ => exact leaf.elim
  | refused check _ => exact .inl (.refused hchildren hquiet check)
  | @items _ values _ hv hnames hraw =>
    have hk : k.value = some (.list values) := by
      rcases hvalue with hvalue | hnone
      · exact hvalue.symm.trans hv
      · rw [hv] at hnone
        cases hnone
    refine .inr ⟨values.length, hnames, fun i hi => ?_, ?_, ?_⟩
    · rw [hraw i hi, hk]
      exact (Value.under?_list values i).symm
    · show ((k'.issues ++ _).filter _) = _
      rw [List.filter_append, filter_naming]
      simp only [show Issue.speaksFor "array/items" = true from by decide, if_pos]
      rw [show k'.issues.filter (fun issue => Issue.speaksFor issue.key) = [] from
        spoken_of_quiet hquiet]
      rfl
    · exact ⟨_, rfl⟩

theorem MadeObject.treated {names : List String} (h : MadeObject parts names k k')
    (hkl : Treated k' l') : MadeObject parts names k l' := by
  obtain ⟨output, hvalue, hkeys⟩ := h.value
  refine ⟨hkl.children ▸ h.children, h.raw, (spoken_treated hkl).trans h.spoken, output, ?_, hkeys⟩
  rcases hkl.value with hsame | ⟨a, b, ha, -⟩
  · rw [hsame, hvalue]
    rfl
  · rw [hvalue] at ha
    cases ha

theorem MadeList.treated {n : Nat} (h : MadeList parts n k k') (hkl : Treated k' l') :
    MadeList parts n k l' := by
  obtain ⟨items, hvalue⟩ := h.value
  refine ⟨hkl.children ▸ h.children, h.raw, (spoken_treated hkl).trans h.spoken, items, ?_⟩
  rcases hkl.value with hsame | ⟨a, b, ha, -⟩
  · rw [hsame, hvalue]
    rfl
  · rw [hvalue] at ha
    cases ha

/-! ## Single values -/

theorem MadeLeaf.treated {ok : Value → Bool} (hstr : ∀ a b, ok (.str a) = true → ok (.str b) = true)
    (h : MadeLeaf (some ok) k') (hkl : Treated k' l') : MadeLeaf (some ok) l' := by
  refine ⟨hkl.children.trans h.children, h.quiet.treated hkl, fun ok' hok' => ?_⟩
  obtain rfl := Option.some.inj hok'
  obtain ⟨new, hnew, -⟩ := hkl.issues
  rcases h.value ok rfl with hissues | hvalue
  · refine .inl (hasIssues_iff.2 ?_)
    rw [hnew]
    exact List.append_ne_nil_of_left_ne_nil (hasIssues_iff.1 hissues) _
  · obtain ⟨v, hv, hok⟩ := (Option.any_eq_true _ _).1 hvalue
    refine .inr ?_
    rcases hkl.value with hsame | ⟨a, b, ha, hb⟩
    · rw [hsame, hv]
      exact hok
    · rw [hv] at ha
      obtain rfl := Option.some.inj ha
      rw [hb]
      exact hstr a b hok

/-- What a kind of single values accepts passes, and the rest meets an issue. -/
theorem leaf_of_check {ok accepts : Value → Bool} {key : String}
    (hkey : Issue.speaksFor key = false) (haccepts : ∀ v, accepts v = true → ok v = true)
    (hchildren : k'.children = []) (hquiet : k'.Quiet)
    (h : l' = if k'.value.any accepts then k' else k'.record (.of key [])) :
    l'.Stopped ∨ MadeLeaf (some ok) l' := by
  split at h
  · next hany =>
    obtain ⟨v, hv, haccept⟩ := (Option.any_eq_true _ _).1 hany
    refine .inr (h ▸ ⟨hchildren, hquiet, fun ok' hok' => .inr ?_⟩)
    rw [hv, ← Option.some.inj hok']
    exact haccepts v haccept
  · exact .inl (h ▸ .record hchildren hquiet hkey [])

/-- Kinds without a type of their own only have to keep quiet. -/
theorem MadeLeaf.untyped (hchildren : l.children = []) (hquiet : l.Quiet) : MadeLeaf none l :=
  ⟨hchildren, hquiet, nofun⟩

/-! ## The main result -/

/-- The value of a behaviour is the one that the tracker had. -/
theorem behaviour_makes {Q : Tracker → Prop} {type? : Option (Value → Bool)} {n : Nat}
    {source : Chain} {p : Pipeline} (hp : p.Registered Registry.standard) (hk : k.Untouched)
    (h : Change.judges parts source (.behaviour p hooks) (k.claim n) l)
    (inspected : ∀ k' l', k'.children = [] → k'.Quiet →
      (k'.value = k.value ∨ k'.value.any Value.isComposite = false) →
      Change.inspects parts hooks k' l' → l'.Stopped ∨ Q l')
    (treated : ∀ k' l', Q k' → Treated k' l' → Q l')
    (converted : ∀ k' l', Q k' → Change.converts hooks k' l' → Q l') :
    Unreached type? k l ∨ Q l := by
  have hmade := judges_made hp (show (k.claim n).children = [] from hk.children)
    (show (k.claim n).issues = [] from hk.issues) h (fun _ hl => hl) inspected treated converted
  exact hmade.imp_left fun ⟨hchildren, hquiet, hfailed⟩ => ⟨hchildren, hquiet, fun _ => hfailed⟩

/-- Kinds without a type, whatever value they look up. -/
theorem untyped_makes {n : Nat} {source : Chain} {body : Body} {p : Pipeline} {v : Option Value}
    (hp : p.Registered Registry.standard) (hk : k.Untouched)
    (h : Change.judges parts source body ((k.claim n).setValue v) l)
    (hbody : ∀ k l, Change.behaves parts body k l → Change.pipeline p Change.same Change.same k l) :
    MadeLeaf none l := by
  have hmade := judges_made (Q := MadeLeaf none) hp (k := (k.claim n).setValue v) hk.children
    hk.issues h (hbody _)
    (fun k' l' hchildren hquiet _ h' => .inr (h' ▸ .untyped hchildren hquiet))
    (fun k' l' h' hkl => .untyped (hkl.children.trans h'.children) (h'.quiet.treated hkl))
    (fun k' l' h' h'' => h'' ▸ h')
  rcases hmade with ⟨hchildren, hquiet, -⟩ | hleaf
  · exact .untyped hchildren hquiet
  · exact hleaf

/-- Kinds of single values, which accept some and convert them to values of their type. -/
theorem leaf_makes {ok accepts : Value → Bool} (key : String) {n : Nat} {source : Chain}
    {p : Pipeline} (hp : p.Registered Registry.standard) (hk : k.Untouched)
    (h : Change.judges parts source (.behaviour p hooks) (k.claim n) l)
    (hkey : Issue.speaksFor key = false) (haccepts : ∀ v, accepts v = true → ok v = true)
    (hstr : ∀ a b, ok (.str a) = true → ok (.str b) = true)
    (hinspect : ∀ k' l', Change.inspects parts hooks k' l' →
      l' = if k'.value.any accepts then k' else k'.record (.of key []))
    (hconvert : ∀ v, v.any ok = true → (Change.converted hooks v).any ok = true) :
    Unreached (some ok) k l ∨ MadeLeaf (some ok) l := by
  refine behaviour_makes hp hk h (fun k' l' hchildren hquiet _ h' => ?_)
    (fun k' l' h' => h'.treated hstr) (fun k' l' h' hconverts => ?_)
  · exact leaf_of_check hkey haccepts hchildren hquiet (hinspect k' l' h')
  · obtain rfl : l' = _ := hconverts
    refine ⟨h'.children, h'.quiet, fun ok' hok' => (h'.value ok' hok').imp_right fun hvalue => ?_⟩
    obtain rfl := Option.some.inj hok'
    exact hconvert _ hvalue

theorem isDate_string (v : Value) (h : Run.isDate v = true) :
    TypeCheck.accepts .string v = true := by
  cases v with
  | str s => rfl
  | _ => cases h

/-- A date stays a string, whether it is written or not. -/
theorem converted_date (format : Option String) (v : Option Value)
    (h : v.any (TypeCheck.accepts .string) = true) :
    (Change.converted (.date format) v).any (TypeCheck.accepts .string) = true := by
  cases format with
  | none => exact h
  | some pattern =>
    unfold Change.converted
    dsimp only
    cases ((v.bind Value.asString?).bind Date.readIso).bind (·.write pattern) with
    | none => exact h
    | some text => rfl

/-- What a standard entity makes of an untouched tracker. -/
theorem Entity.Standard.makes (h : e.Standard) (hk : k.Untouched) (made : e.Makes parts k l) :
    Unreached e.source.kind.typeTest? k l ∨ Made parts e.source.kind k l := by
  obtain ⟨n, source, resolver, body⟩ := e
  obtain ⟨m, hreplaces, hjudges⟩ := made
  have hp : (Pipeline.ofSteps source.pipeline).Registered Registry.standard := h.pipeline
  have hbody : Entity.FitsBody source body := h.fits.body
  have hjudges : Change.judges parts source body m l := hjudges
  have hreplaces : Change.replaces body (k.claim n) m := hreplaces
  show Unreached source.kind.typeTest? k l ∨ Made parts source.kind k l
  generalize hkind : source.kind = kind
  cases hbody.fitted hkind with
  | reference path =>
    obtain ⟨v, rfl⟩ := hreplaces
    exact .inr (untyped_makes hp hk hjudges fun _ _ h => h)
  | custom name =>
    obtain rfl : m = k.claim n := hreplaces
    have hnone : Pipeline.Registered Registry.standard ⟨none, []⟩ := ⟨nofun, nofun⟩
    refine .inr (untyped_makes (v := k.value) hnone hk hjudges fun k' l' h' => ?_)
    exact ⟨k', rfl, by split <;> exact h'⟩
  | any =>
    obtain rfl : m = k.claim n := hreplaces
    exact behaviour_makes (Q := MadeLeaf none) hp hk hjudges
      (fun k' l' hchildren hquiet _ h' => .inr (h' ▸ .untyped hchildren hquiet))
      (fun k' l' h' hkl => .untyped (hkl.children.trans h'.children) (h'.quiet.treated hkl))
      (fun k' l' h' h'' => h'' ▸ h')
  | string =>
    obtain rfl : m = k.claim n := hreplaces
    exact leaf_makes TypeCheck.string.key hp hk hjudges (by decide) (fun _ h => h)
      (fun _ _ h => h) (fun _ _ h => h) (fun _ h => h)
  | number =>
    obtain rfl : m = k.claim n := hreplaces
    exact leaf_makes TypeCheck.number.key hp hk hjudges (by decide) (fun _ h => h)
      (fun _ _ h => h) (fun _ _ h => h) (fun _ h => h)
  | boolean =>
    obtain rfl : m = k.claim n := hreplaces
    exact leaf_makes TypeCheck.boolean.key hp hk hjudges (by decide) (fun _ h => h)
      (fun _ _ h => h) (fun _ _ h => h) (fun _ h => h)
  | date =>
    obtain rfl : m = k.claim n := hreplaces
    exact leaf_makes "date/type" hp hk hjudges (by decide) isDate_string
      (fun _ _ h => h) (fun _ _ h => h) (converted_date _)
  | list =>
    obtain rfl : m = k.claim n := hreplaces
    refine leaf_makes "array/type" hp hk hjudges (by decide) (fun _ h => h)
      (fun _ _ h => h) (fun k' l' h' => ?_) (fun _ h => h)
    obtain rfl : l' = _ := h'
    cases k'.value <;> rfl
  | items entity =>
    obtain rfl : m = k.claim n := hreplaces
    exact behaviour_makes hp hk hjudges (fun k' l' => MadeList.of_inspects)
      (fun k' l' ⟨n, h'⟩ hkl => ⟨n, h'.treated hkl⟩) (fun k' l' h' h'' => h'' ▸ h')
  | object members schedule escaping =>
    obtain rfl : m = k.claim n := hreplaces
    show _ ∨ MadeObject parts ((members.map fun m => (m.1, m.2.source)).map (·.1)) k l
    rw [Table.names_map]
    exact behaviour_makes hp hk hjudges (fun k' l' => MadeObject.of_inspects)
      (fun k' l' h' hkl => h'.treated hkl) (fun k' l' h' h'' => h'' ▸ h')

/-- Children begin with the parts of the value that was there. -/
theorem Entity.Standard.handsOn (h : e.Standard) : e.HandsOn := by
  intro parts k l hk made s hs
  have hleaf : l.children = [] → (parts s).raw = k.value.bind (·.under? s) := by
    intro hchildren
    rw [hchildren] at hs
    cases hs
  rcases h.makes hk made with hunreached | hmade
  · exact hleaf hunreached.children
  · unfold Made at hmade
    split at hmade
    · exact hmade.raw s (hmade.children ▸ hs)
    · obtain ⟨n, hmade⟩ := hmade
      rw [hmade.children] at hs
      obtain ⟨i, hi, rfl⟩ := List.mem_map.1 hs
      exact hmade.raw i (List.mem_range.1 hi)
    · exact hleaf hmade.children

end

end Intake
