import Intake.Proofs.Value.Members
import Intake.Run
/-!
# What becomes of a tracker

A `Change` relates a tracker before a stage of processing to the tracker after it.  Whatever is
looked up on the way may be any value, and what comes out of the children is given: `parts` tells
for each of them the value that it began with, whether there are issues in it or below it in the
end, and the value that it has then.

    e.Makes parts k l

says that the entity `e` makes the tracker `l` of `k`.  It has the stages of `Entity.process`, one
by one, so what they keep, the entity keeps (`Change.pipeline_keeps`).  What an inspection and the presence rules can do is
listed once, in `Change.Inspected` and `Change.Judged`.
-/

namespace Intake

/-- What becomes of a tracker. -/
abbrev Change := Tracker → Tracker → Prop

/-- What a tracker has to know of one of its children. -/
structure Part where
  raw : Option Value
  failing : Bool
  value : Option Value

namespace Change

/-- The second change, unless there are issues after the first. -/
def andThen (R S : Change) : Change := fun k l =>
  ∃ m, R k m ∧ if m.hasIssues then l = m else S m l

def same : Change := fun k l => l = k

/-- A step puts its value in place and adds its issues, whatever its arguments are. -/
def step (s : CompiledStep) : Change := fun k l =>
  ∃ args : Arguments, l = { k with
    value := some (s.processor.run (k.value.getD .null) args).value
    issues := k.issues ++
      Run.issuesOf s.processor.key (s.processor.run (k.value.getD .null) args) }

/-- The steps one after the other, and then `last`, as long as there are no issues. -/
def steps (last : Change) : List CompiledStep → Change
  | [] => last
  | s :: rest => (step s).andThen (steps last rest)

/-- A pipeline around what a kind does. -/
def pipeline (p : Pipeline) (inspect convert : Change) : Change :=
  match p.format with
  | some s => (step s).andThen (inspect.andThen (steps convert p.steps))
  | none => inspect.andThen (steps convert p.steps)

/-! ## What a pipeline keeps -/

theorem steps_keeps {Q : Tracker → Prop} {last : Change} {l : Tracker} :
    ∀ {list : List CompiledStep} {k : Tracker}, steps last list k l → Q k →
      k.hasIssues = false →
      (∀ s ∈ list, ∀ k l, Q k → k.hasIssues = false → step s k l → Q l) →
      (∀ k l, Q k → k.hasIssues = false → last k l → Q l) → Q l
  | [], k, h, hk, hissues, _, hlast => hlast k l hk hissues h
  | s :: rest, k, h, hk, hissues, hstep, hlast => by
    obtain ⟨m, hm, hrest⟩ := h
    have hQ : Q m := hstep s List.mem_cons_self k m hk hissues hm
    cases hi : m.hasIssues with
    | true =>
      rw [hi, if_pos rfl] at hrest
      exact hrest ▸ hQ
    | false =>
      rw [hi, if_neg Bool.false_ne_true] at hrest
      exact steps_keeps hrest hQ hi (fun s' hs' => hstep s' (List.mem_cons_of_mem _ hs')) hlast

/-- A pipeline goes from `P` to `Q` if the format step keeps `P`, the inspection goes from `P` to
`Q`, and what comes after it keeps `Q`. -/
theorem pipeline_keeps {P Q : Tracker → Prop} {p : Pipeline} {inspect convert : Change}
    {k l : Tracker} (h : pipeline p inspect convert k l) (hk : P k) (hissues : k.hasIssues = false)
    (format : ∀ s, p.format = some s → ∀ k l, P k → k.hasIssues = false → step s k l → P l)
    (stop : ∀ k, P k → k.hasIssues = true → Q k)
    (inspected : ∀ k l, P k → k.hasIssues = false → inspect k l → Q l)
    (stepped : ∀ s ∈ p.steps, ∀ k l, Q k → k.hasIssues = false → step s k l → Q l)
    (converted : ∀ k l, Q k → k.hasIssues = false → convert k l → Q l) : Q l := by
  have hrest : ∀ k, P k → k.hasIssues = false →
      inspect.andThen (steps convert p.steps) k l → Q l := by
    intro k hk hissues h
    obtain ⟨m, hm, hrest⟩ := h
    have hQ : Q m := inspected k m hk hissues hm
    cases hi : m.hasIssues with
    | true =>
      rw [hi, if_pos rfl] at hrest
      exact hrest ▸ hQ
    | false =>
      rw [hi, if_neg Bool.false_ne_true] at hrest
      exact steps_keeps hrest hQ hi stepped converted
  unfold pipeline at h
  cases hf : p.format with
  | none =>
    rw [hf] at h
    exact hrest k hk hissues h
  | some s =>
    rw [hf] at h
    obtain ⟨m, hm, h⟩ := h
    have hP : P m := format s hf k m hk hissues hm
    cases hi : m.hasIssues with
    | true =>
      rw [hi, if_pos rfl] at h
      exact h ▸ stop m hP hi
    | false =>
      rw [hi, if_neg Bool.false_ne_true] at h
      exact hrest m hP hi h

end Change

/-! ## Lists and objects -/

/-- The issue that names some values, if there are any. -/
def naming (key arg : String) (values : List Value) : List Issue :=
  if values.isEmpty then [] else [.of key [(arg, .list values)]]

/-- A list of `n` items put together again. -/
def listed (parts : String → Part) (n : Nat) (k : Tracker) : Tracker :=
  let failing := (List.range n).filter fun i => (parts (toString i)).failing
  { k with
    value := some (.list ((List.range n).map fun i => (parts (toString i)).value.getD .null))
    issues := k.issues ++ naming "array/items" "indexes" (failing.map .ofNat) }

/-- The members that are in an object in the end. -/
def outputOf (parts : String → Part) (policy : UnknownKeys) (names : List String)
    (input : List (String × Value)) : List (String × Value) :=
  let unknown := input.filter fun m => !names.contains m.1
  (names.filterMap fun name => (parts name).value.map (name, ·)) ++
    if policy = .allow then unknown else []

section Output

variable {parts : String → Part} {policy : UnknownKeys} {names : List String}
  {input : List (String × Value)}

theorem outputOf_eq (parts : String → Part) (policy : UnknownKeys) (names : List String)
    (input : List (String × Value)) :
    (if policy = .allow then (names.filterMap fun name => (parts name).value.map (name, ·)) ++
        input.filter fun m => !names.contains m.1
      else names.filterMap fun name => (parts name).value.map (name, ·)) =
      outputOf parts policy names input := by
  rw [outputOf]
  split
  · rfl
  · exact (List.append_nil _).symm

/-- The defined members and, where they are allowed, the unknown keys of the input. -/
theorem lookup?_outputOf (key : String) :
    Value.lookup? key (Value.sortMembers (outputOf parts policy names input)) =
      if key ∈ names then (parts key).value
      else if policy = .allow then Value.lookup? key (Value.sortMembers input) else none := by
  have hknown : Value.lookup? key (names.filterMap fun name =>
      (parts name).value.map (name, ·)).reverse =
        if key ∈ names then (parts key).value else none := by
    rw [← List.filterMap_reverse, Value.lookup?_filterMap fun name => (parts name).value]
    simp
  have hunknown : Value.lookup? key (if policy = .allow then
      input.filter fun m => !names.contains m.1 else []).reverse =
        if key ∉ names ∧ policy = .allow then Value.lookup? key (Value.sortMembers input)
        else none := by
    by_cases hpolicy : policy = .allow
    · rw [if_pos hpolicy, ← List.filter_reverse, Value.lookup?_sortMembers]
      by_cases hkey : key ∈ names
      · rw [if_neg fun h => h.1 hkey, Value.lookup?_eq_none_iff]
        simp [hkey]
      · rw [if_pos ⟨hkey, hpolicy⟩]
        exact Value.lookup?_filter (p := fun key => !names.contains key) (by simpa using hkey)
    · rw [if_neg hpolicy, if_neg fun h => hpolicy h.2]
      rfl
  rw [Value.lookup?_sortMembers, outputOf, List.reverse_append, Value.lookup?_append, hknown,
    hunknown]
  by_cases hkey : key ∈ names <;> by_cases hpolicy : policy = .allow <;> simp [hkey, hpolicy]

/-- The order of the names does not matter to the object that is made. -/
theorem outputOf_congr {parts' : String → Part} {names' : List String}
    (hnames : ∀ s, s ∈ names ↔ s ∈ names') (hvalue : ∀ s, (parts s).value = (parts' s).value) :
    Value.ofMembers (outputOf parts policy names input) =
      .ofMembers (outputOf parts' policy names' input) := by
  refine congrArg Value.object (Value.ext_of_sorted (Value.sortedKeys_sortMembers _)
    (Value.sortedKeys_sortMembers _) fun key => ?_)
  rw [lookup?_outputOf, lookup?_outputOf, hvalue]
  simp only [hnames]

end Output

/-- The keys that an object rejects. -/
def rejectedBy (policy : UnknownKeys) (names : List String) (input : List (String × Value)) :
    List String :=
  let unknown := input.filter fun m => !names.contains m.1
  if policy = .forbid then unknown.map (·.1) else []

/-- An object put together again. -/
def assembled (parts : String → Part) (policy : UnknownKeys) (names : List String)
    (input : List (String × Value)) (k : Tracker) : Tracker :=
  let failing := names.filter fun name => (parts name).failing
  { k with
    value := some (.ofMembers (outputOf parts policy names input))
    issues := k.issues ++ naming "object/members" "fields" (failing.map .str) ++
      naming "object/unknown-keys" "keys" ((rejectedBy policy names input).map .str) }

namespace Change

/-- What a kind makes of a tracker before the steps. -/
def inspects (parts : String → Part) : Hooks → Change
  | .pass => same
  | .check type => fun k l => l = if k.value.any type.accepts then k else k.record (.of type.key [])
  | .date _ => fun k l => l = if k.value.any Run.isDate then k else k.record (.of "date/type" [])
  | .array none => fun k l =>
    l = if (k.value.bind Value.asList?).isSome then k else k.record (.of "array/type" [])
  | .array (some _) => fun k l =>
    match k.value with
    | some (.list values) =>
      Table.names l.children = (List.range values.length).map toString ∧
        (∀ i < values.length, (parts (toString i)).raw = values[i]?) ∧
        l = listed parts values.length { k with children := l.children }
    | _ => l = k.record (.of "array/type" [])
  | .object members _ policy _ => fun k l =>
    match k.value with
    | some (.object input) =>
      Table.names l.children = members.map (·.1) ∧
        (∀ m ∈ members, (parts m.1).raw = Value.lookup? m.1 input) ∧
        l = assembled parts policy (members.map (·.1)) input { k with children := l.children }
    | _ => l = k.record (.of "object/type" [])
  | .custom hooks => fun k l => l = { k with issues := k.issues ++ hooks.inspect k.value }

/-- The value that a kind puts in place after the steps. -/
def converted : Hooks → Option Value → Option Value
  | .date (some pattern), v =>
    (((v.bind Value.asString?).bind Date.readIso).bind (·.write pattern)).elim v
      fun text => some (.str text)
  | .custom hooks, v => hooks.convert v
  | _, v => v

/-- What a kind makes of a tracker after the steps. -/
def converts (hooks : Hooks) : Change := fun k l => l = k.setValue (converted hooks k.value)

/-- A reference puts some value in place. -/
def replaces : Body → Change
  | .reference _ _ => fun k l => ∃ v, l = k.setValue v
  | _ => same

/-- A default is put in place: its value, or that of its path, which an entity of its own looks
up. -/
def substitutes : Option Operand → Change
  | some (.literal v) => fun k l => l = k.setValue (some v)
  | some (.reference _) => fun k l => ∃ resolver v, l = (k.claim resolver).setValue v
  | none => same

/-- What comes after the presence rules. -/
def behaves (parts : String → Part) : Body → Change
  | .base => same
  | .reference _ p => pipeline p same same
  | .behaviour p hooks => pipeline p (inspects parts hooks) (converts hooks)

/-- The presence rules. -/
def judges (parts : String → Part) (source : Chain) (body : Body) : Change := fun k l =>
  match k.value with
  | none =>
    if source.props.required then l = k.record (.of "generic/required" [])
    else substitutes source.props.default? k l
  | some _ =>
    if source.props.forbidden then l = k.record (.of "generic/forbidden" [])
    else behaves parts body k l

end Change

/-- What an entity makes of a tracker. -/
def Entity.Makes (parts : String → Part) (e : Entity) : Change := fun k l =>
  ∃ m, Change.replaces e.body (k.claim e.id) m ∧ Change.judges parts e.source e.body m l

/-! ## What the stages can do -/

/-- The check of an inspection: the key of the issue that it records, and the values that it
accepts. -/
def Hooks.check? : Hooks → Option (String × (Value → Bool))
  | .check type => some (type.key, type.accepts)
  | .date _ => some ("date/type", Run.isDate)
  | .array _ => some ("array/type", fun v => v.asList?.isSome)
  | .object .. => some ("object/type", fun v => v.asObject?.isSome)
  | .pass | .custom _ => none

/-- The issues of the checks. -/
def Issue.typeKeys : List String :=
  ["string/type", "number/type", "boolean/type", "date/type", "array/type", "object/type"]

theorem Hooks.key_mem {hooks : Hooks} {key : String} {accepts : Value → Bool}
    (h : hooks.check? = some (key, accepts)) : key ∈ Issue.typeKeys := by
  cases hooks with
  | check type =>
    obtain ⟨rfl, -⟩ := Prod.mk.inj (Option.some.inj h)
    cases type <;> decide
  | pass | custom _ => cases h
  | _ =>
    obtain ⟨rfl, -⟩ := Prod.mk.inj (Option.some.inj h)
    decide

/-- Lists of items and objects put their value together again, and custom kinds do as they like. -/
def Hooks.Leaf : Hooks → Prop
  | .array (some _) | .object .. | .custom _ => False
  | _ => True

namespace Change

variable {parts : String → Part} {k l : Tracker}

/-- What comes of an inspection: the tracker is as it was, has an issue of its type, or is put
together of its children. -/
inductive Inspected (parts : String → Part) (k : Tracker) : Hooks → Tracker → Prop
  | kept {hooks : Hooks} (leaf : hooks.Leaf)
      (accepted : ∀ check, hooks.check? = some check → k.value.any check.2 = true) :
      Inspected parts k hooks k
  | refused {hooks : Hooks} {key : String} {accepts : Value → Bool}
      (check : hooks.check? = some (key, accepts)) (wrong : k.value.any accepts = false) :
      Inspected parts k hooks (k.record (.of key []))
  | items {item : Entity} {values : List Value} {children : List (String × TrackerId)}
      (value : k.value = some (.list values))
      (names : Table.names children = (List.range values.length).map toString)
      (raw : ∀ i < values.length, (parts (toString i)).raw = values[i]?) :
      Inspected parts k (.array (some item)) (listed parts values.length { k with children })
  | members {members : List (String × Entity)} {schedule : Schedule String}
      {policy : UnknownKeys} {escaping : List Path} {input : List (String × Value)}
      {children : List (String × TrackerId)} (value : k.value = some (.object input))
      (names : Table.names children = members.map (·.1))
      (raw : ∀ m ∈ members, (parts m.1).raw = Value.lookup? m.1 input) :
      Inspected parts k (.object members schedule policy escaping)
        (assembled parts policy (members.map (·.1)) input { k with children })
  | custom (hooks : CustomHooks) :
      Inspected parts k (.custom hooks) { k with issues := k.issues ++ hooks.inspect k.value }

theorem inspects_list {item : Entity} {values : List Value} (hv : k.value = some (.list values)) :
    inspects parts (.array (some item)) k l ↔
      Table.names l.children = (List.range values.length).map toString ∧
        (∀ i < values.length, (parts (toString i)).raw = values[i]?) ∧
        l = listed parts values.length { k with children := l.children } := by
  simp only [inspects, hv]

theorem inspects_object {members : List (String × Entity)} {schedule : Schedule String}
    {policy : UnknownKeys} {escaping : List Path} {input : List (String × Value)}
    (hv : k.value = some (.object input)) :
    inspects parts (.object members schedule policy escaping) k l ↔
      Table.names l.children = members.map (·.1) ∧
        (∀ m ∈ members, (parts m.1).raw = Value.lookup? m.1 input) ∧
        l = assembled parts policy (members.map (·.1)) input { k with children := l.children } := by
  simp only [inspects, hv]

theorem inspects_no_list {item : Entity} (h : ¬ ∃ values, k.value = some (.list values)) :
    inspects parts (.array (some item)) k l ↔ l = k.record (.of "array/type" []) := by
  unfold inspects
  dsimp only
  split
  · next values hv => exact absurd ⟨values, hv⟩ h
  · rfl

theorem inspects_no_object {members : List (String × Entity)} {schedule : Schedule String}
    {policy : UnknownKeys} {escaping : List Path}
    (h : ¬ ∃ input, k.value = some (.object input)) :
    inspects parts (.object members schedule policy escaping) k l ↔
      l = k.record (.of "object/type" []) := by
  unfold inspects
  dsimp only
  split
  · next input hv => exact absurd ⟨input, hv⟩ h
  · rfl

theorem inspects.inspected {hooks : Hooks} (h : inspects parts hooks k l) :
    Inspected parts k hooks l := by
  have check : ∀ {hooks : Hooks} {key : String} {accepts : Value → Bool}, hooks.Leaf →
      hooks.check? = some (key, accepts) →
      l = (if k.value.any accepts then k else k.record (.of key [])) →
      Inspected parts k hooks l := by
    rintro hooks key accepts hleaf hcheck rfl
    split
    · next haccepted =>
      exact .kept hleaf fun check h => Option.some.inj (hcheck.symm.trans h) ▸ haccepted
    · next hwrong => exact .refused hcheck (Bool.eq_false_iff.2 hwrong)
  cases hooks with
  | pass =>
    obtain rfl : l = k := h
    exact .kept trivial nofun
  | check type => exact check trivial rfl h
  | date format => exact check trivial rfl h
  | array items =>
    cases items with
    | none =>
      refine check trivial rfl ((show l = _ from h).trans ?_)
      cases k.value <;> rfl
    | some items =>
      by_cases hlist : ∃ values, k.value = some (.list values)
      · obtain ⟨values, hv⟩ := hlist
        obtain ⟨hnames, hraw, hl⟩ := (inspects_list hv).1 h
        rw [hl]
        exact .items hv hnames hraw
      · rw [(inspects_no_list hlist).1 h]
        exact .refused rfl (Value.any_asList_eq_false.2 hlist)
  | object members schedule policy escaping =>
    by_cases hobject : ∃ input, k.value = some (.object input)
    · obtain ⟨input, hv⟩ := hobject
      obtain ⟨hnames, hraw, hl⟩ := (inspects_object hv).1 h
      rw [hl]
      exact .members hv hnames hraw
    · rw [(inspects_no_object hobject).1 h]
      exact .refused rfl (Value.any_asObject_eq_false.2 hobject)
  | custom hooks =>
    obtain rfl : l = _ := h
    exact .custom hooks

/-- Replacing changes the value alone. -/
theorem replaces_eq {body : Body} (h : replaces body k l) : ∃ v, l = k.setValue v := by
  cases body with
  | reference path p => exact h
  | base => exact ⟨k.value, h⟩
  | behaviour p hooks => exact ⟨k.value, h⟩

/-- A default changes the value alone, if no other entity looks it up. -/
theorem substitutes_eq {default? : Option Operand} (h : substitutes default? k l) :
    ∃ v, l = k.setValue v ∨ ∃ n, l = (k.claim n).setValue v := by
  cases default? with
  | none => exact ⟨k.value, .inl h⟩
  | some operand =>
    cases operand with
    | literal v => exact ⟨v, .inl h⟩
    | reference path =>
      obtain ⟨n, v, hl⟩ := h
      exact ⟨v, .inr ⟨n, hl⟩⟩

/-- What comes of the presence rules: an issue, a default, or what the body makes. -/
inductive Judged (parts : String → Part) (source : Chain) (body : Body) (k : Tracker) :
    Tracker → Prop
  | missing (value : k.value = none) (required : source.props.required = true) :
      Judged parts source body k (k.record (.of "generic/required" []))
  | substituted {l : Tracker} (value : k.value = none) (optional : source.props.required = false)
      (h : substitutes source.props.default? k l) : Judged parts source body k l
  | forbidden (value : k.value.isSome = true) (forbidden : source.props.forbidden = true) :
      Judged parts source body k (k.record (.of "generic/forbidden" []))
  | behaved {l : Tracker} (value : k.value.isSome = true)
      (allowed : source.props.forbidden = false) (h : behaves parts body k l) :
      Judged parts source body k l

theorem judges.judged {source : Chain} {body : Body} (h : judges parts source body k l) :
    Judged parts source body k l := by
  unfold judges at h
  split at h
  · next hv =>
    split at h
    · next hrequired => exact h ▸ .missing hv hrequired
    · next hoptional => exact .substituted hv (Bool.eq_false_iff.2 hoptional) h
  · next hv =>
    have hvalue : k.value.isSome = true := Option.isSome_of_eq_some hv
    split at h
    · next hforbidden => exact h ▸ .forbidden hvalue hforbidden
    · next hallowed => exact .behaved hvalue (Bool.eq_false_iff.2 hallowed) h

/-- A value that is not forbidden comes to the body. -/
theorem judges.behaves {source : Chain} {body : Body} {v : Value}
    (h : judges parts source body k l) (hv : k.value = some v)
    (hallowed : source.props.forbidden = false) : behaves parts body k l := by
  unfold judges at h
  rw [hv] at h
  dsimp only at h
  rwa [hallowed, if_neg Bool.false_ne_true] at h

/-! ## Owners -/

theorem inspects_entity {hooks : Hooks} (h : inspects parts hooks k l) :
    l.entity = k.entity := by
  cases h.inspected <;> rfl

theorem behaves_entity {body : Body} (hissues : k.hasIssues = false) (h : behaves parts body k l) :
    l.entity = k.entity := by
  have hstep : ∀ {s : CompiledStep} {k l : Tracker}, step s k l → l.entity = k.entity := by
    rintro s k l ⟨args, rfl⟩
    rfl
  have hpipeline : ∀ {p : Pipeline} {inspect convert : Change},
      pipeline p inspect convert k l → (∀ k l, inspect k l → l.entity = k.entity) →
      (∀ k l, convert k l → l.entity = k.entity) → l.entity = k.entity := by
    intro p inspect convert h hinspect hconvert
    exact pipeline_keeps (P := fun m => m.entity = k.entity) (Q := fun m => m.entity = k.entity) h
      rfl hissues (fun _ _ _ _ hm _ hs => (hstep hs).trans hm) (fun _ hm _ => hm)
      (fun _ _ hm _ hs => (hinspect _ _ hs).trans hm)
      (fun _ _ _ _ hm _ hs => (hstep hs).trans hm) (fun _ _ hm _ hs => (hconvert _ _ hs).trans hm)
  cases body with
  | base => exact congrArg Tracker.entity h
  | reference path p =>
    exact hpipeline h (fun _ _ hs => congrArg Tracker.entity hs)
      fun _ _ hs => congrArg Tracker.entity hs
  | behaviour p hooks =>
    refine hpipeline h (fun _ _ hs => inspects_entity hs) fun k l hs => ?_
    obtain rfl : l = _ := hs
    rfl

end Change

/-- The entity that processes a tracker first owns it. -/
theorem Entity.Makes.entity {parts : String → Part} {e : Entity} {k l : Tracker}
    (h : e.Makes parts k l) (hk : k.entity = none) (hissues : k.hasIssues = false) :
    l.entity = some e.id := by
  obtain ⟨m, hreplaces, hjudges⟩ := h
  have hclaim : (k.claim e.id).entity = some e.id := by
    rw [Tracker.claim, hk]
    rfl
  have hm : m.entity = some e.id ∧ m.hasIssues = false := by
    obtain ⟨v, rfl⟩ := Change.replaces_eq hreplaces
    exact ⟨hclaim, hissues⟩
  rw [← hm.1]
  cases hjudges.judged with
  | missing | forbidden => rfl
  | substituted _ _ h =>
    -- the entity that looks up a default comes second
    obtain ⟨v, rfl | ⟨n, rfl⟩⟩ := Change.substitutes_eq h
    · rfl
    · show (m.entity <|> some n) = _
      rw [hm.1]
      rfl
  | behaved _ _ h => exact Change.behaves_entity hm.2 h

end Intake
