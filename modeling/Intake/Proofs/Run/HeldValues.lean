import Intake.Proofs.Value.Members
import Intake.Proofs.Run.FailingChildren
/-!
# What objects and lists hold

After a run of a standard entity, the tracker of an object whose value has come through the check
of its kind holds the final values of its members, and beside them the unknown keys that it allows;
the tracker of such a list holds the final values of its items (`held_values`).  It is so whether
the run is valid or not:

    lookup? name output = (t.child? id name).bind t.value?

An object is put together when all its members have been processed, and no later step of a standard
pipeline replaces what is no string.
-/

namespace Intake

/-- The value that comes to the check of a chain's kind if there was `raw` in the beginning: that
value, or what the format step has made of it without an issue.  A forbidden value does not come so
far. -/
inductive Chain.Checks (c : Chain) (raw : Value) : Value → Prop
  | plain (allowed : c.props.forbidden = false)
      (first : (Pipeline.ofSteps c.pipeline).format = none) : Checks c raw raw
  | formatted {s : CompiledStep} (allowed : c.props.forbidden = false)
      (first : (Pipeline.ofSteps c.pipeline).format = some s) (args : Arguments)
      (accepted : Run.issuesOf s.processor.key (s.processor.run raw args) = []) :
      Checks c raw (s.processor.run raw args).value

/-- The tracker of an object holds the final values of its members and the unknown keys that it
allows, and names the unknown keys that it forbids. -/
structure HoldsMembers (t : TrackerTree) (id : TrackerId) (policy : UnknownKeys)
    (names : List String) (checked : List (String × Value)) (k : Tracker) : Prop where
  children : Table.names k.children = names
  value : ∃ output, k.value = some (.object output) ∧ Value.SortedKeys output ∧
    (∀ name ∈ names, Value.lookup? name output = (t.child? id name).bind t.value?) ∧
    ∀ key, key ∉ names → Value.lookup? key output =
      if policy = .allow then Value.lookup? key (Value.sortMembers checked) else none
  rejected : k.issues.filter (·.key == "object/unknown-keys") =
    naming "object/unknown-keys" "keys" (if policy = .forbid then
      ((checked.map (·.1)).filter fun key => !names.contains key).map .str else [])

/-- The tracker of a list holds the final values of its items, null for those that have none. -/
structure HoldsItems (t : TrackerTree) (id : TrackerId) (checked : List Value) (k : Tracker) :
    Prop where
  children : Table.names k.children = (List.range checked.length).map toString
  value : k.value = some (.list ((List.range checked.length).map fun i =>
    ((t.child? id (toString i)).bind t.value?).getD .null))

/-! ## Behind the check -/

section

variable {t : TrackerTree} {e : Entity} {k l : Tracker} {x : TrackerId}
  {raw : String → Option Value}

/-- What a standard pipeline checks as a list or an object has met no format step. -/
theorem Chain.Checks.of_composite {c : Chain} {before checked : Value}
    (h : c.Checks before checked)
    (hp : (Pipeline.ofSteps c.pipeline).Registered Registry.standard)
    (hcomposite : checked.isComposite = true) :
    c.props.forbidden = false ∧ (Pipeline.ofSteps c.pipeline).format = none ∧
      before = checked := by
  cases h with
  | plain allowed first => exact ⟨allowed, first, rfl⟩
  | formatted allowed first args accepted =>
    obtain ⟨hformat, key, hkey⟩ := hp.format _ first
    rcases (Processor.regular_of_standard hkey).reads hformat before args with hissues | hsingle
    · exact absurd accepted hissues
    · exact absurd (hcomposite.symm.trans hsingle) nofun

/-- Behind the check of a list or an object comes what its kind makes of it, and the steps keep
it. -/
theorem Entity.Standard.behind_check {Q : Tracker → Prop} {parts : String → Part} {hooks : Hooks}
    (h : e.Standard) (hbody : e.body = .behaviour (.ofSteps e.source.pipeline) hooks)
    (hk : k.Untouched) (made : e.Makes parts k l) {before checked : Value}
    (hvalue : k.value = some before) (hchecks : e.source.Checks before checked)
    (hcomposite : checked.isComposite = true)
    (inspected : ∀ k' l', k'.value = some checked → k'.issues = [] →
      Change.inspects parts hooks k' l' → Q l')
    (treated : ∀ k' l', Q k' → Tracker.Treated k' l' → Q l')
    (converted : ∀ k' l', Q k' → Change.converts hooks k' l' → Q l') : Q l := by
  obtain ⟨hallowed, hformat, rfl⟩ := hchecks.of_composite h.pipeline hcomposite
  obtain ⟨m, hreplaces, hjudges⟩ := made
  rw [hbody] at hreplaces hjudges
  obtain rfl : m = k.claim e.id := hreplaces
  have hbehaves := hjudges.behaves hvalue hallowed
  refine Change.pipeline_keeps (P := fun k' => k'.value = some before ∧ k'.issues = []) hbehaves
    ⟨hvalue, hk.issues⟩ ?_ ?_ ?_ ?_ ?_ ?_
  · rw [Tracker.hasIssues, show (k.claim e.id).issues = [] from hk.issues]
    rfl
  · intro s hs
    cases hformat.symm.trans hs
  · intro k' hk' hissues
    exact absurd hk'.2 (Tracker.hasIssues_iff.1 hissues)
  · intro k' l' hk' _ hinspect
    exact inspected k' l' hk'.1 hk'.2 hinspect
  · intro s hs k' l' hQ _ hstep
    exact treated k' l' hQ (Change.step_treated (h.pipeline.steps s hs) hstep)
  · intro k' l' hQ _ hconvert
    exact converted k' l' hQ hconvert

/-- Only a string is replaced. -/
theorem Tracker.Treated.composite (h : Treated k l) {v : Value} (hv : k.value = some v)
    (hcomposite : v.isComposite = true) : l.value = some v := by
  rcases h.value with hsame | ⟨a, b, ha, -⟩
  · rw [hsame, hv]
    rfl
  · rw [hv] at ha
    obtain rfl := Option.some.inj ha
    cases hcomposite

/-- An issue that names some values has its key, or it is not there. -/
theorem filter_key_naming (key other arg : String) (values : List Value) :
    (naming key arg values).filter (·.key == other) =
      if key = other then naming key arg values else [] := by
  unfold naming
  split
  · simp
  · by_cases h : key = other <;> simp [Issue.of, h]

/-- An object behind its check. -/
theorem Entity.Standard.holdsMembers (h : e.Standard) {fields : List (String × Chain)}
    (hkind : e.source.kind = .object fields) (hk : k.Untouched)
    (made : e.Makes (t.parts x raw) k l) {before : Value} {checked : List (String × Value)}
    (hvalue : k.value = some before) (hchecks : e.source.Checks before (.object checked)) :
    HoldsMembers t x e.source.props.unknownKeys (fields.map (·.1)) checked l := by
  obtain ⟨members, schedule, escaping, hbody, rfl⟩ := h.fits.body.of_object hkind
  rw [Table.names_map]
  refine h.behind_check hbody hk made hvalue hchecks rfl (fun k' l' hvalue' hissues' hinspect => ?_)
    (fun k' l' hQ htreated => ?_) fun k' l' hQ hconvert => hconvert ▸ hQ
  · obtain ⟨hchildren, -, hl⟩ := (Change.inspects_object hvalue').1 hinspect
    refine ⟨hchildren, ⟨_, congrArg Tracker.value hl, Value.sortedKeys_sortMembers _,
      fun name hname => ?_, fun key hkey => ?_⟩, ?_⟩
    · rw [lookup?_outputOf, if_pos hname]
      rfl
    · rw [lookup?_outputOf, if_neg hkey]
    · rw [hl]
      show ((k'.issues ++ naming "object/members" "fields" _ ++
        naming "object/unknown-keys" "keys" _).filter _) = _
      rw [hissues', List.nil_append, List.filter_append, filter_key_naming, filter_key_naming,
        if_neg (by decide), if_pos rfl, List.nil_append, rejectedBy, List.filter_map]
      split <;> rfl
  · obtain ⟨output, houtput, hsorted, hkeys⟩ := hQ.value
    refine ⟨htreated.children ▸ hQ.children,
      ⟨output, htreated.composite houtput rfl, hsorted, hkeys⟩, ?_⟩
    obtain ⟨new, hnew, hnone⟩ := htreated.issues
    have hfilter : new.filter (·.key == "object/unknown-keys") = [] :=
      List.filter_eq_nil_iff.2 fun issue hissue hkey => by
        have := hnone issue hissue
        rw [eq_of_beq hkey] at this
        exact absurd this (by decide)
    rw [hnew, List.filter_append, hfilter, List.append_nil]
    exact hQ.rejected

/-- A list behind its check. -/
theorem Entity.Standard.holdsItems (h : e.Standard) {item : Chain}
    (hkind : e.source.kind = .array (some item)) (hk : k.Untouched)
    (made : e.Makes (t.parts x raw) k l) {before : Value} {checked : List Value}
    (hvalue : k.value = some before) (hchecks : e.source.Checks before (.list checked)) :
    HoldsItems t x checked l := by
  obtain ⟨items, hbody, -⟩ := h.fits.body.of_items hkind
  refine h.behind_check hbody hk made hvalue hchecks rfl (fun k' l' hvalue' _ hinspect => ?_)
    (fun k' l' hQ htreated => ?_) fun k' l' hQ hconvert => hconvert ▸ hQ
  · obtain ⟨hchildren, -, hl⟩ := (Change.inspects_list hvalue').1 hinspect
    exact ⟨hchildren, congrArg Tracker.value hl⟩
  · exact ⟨htreated.children ▸ hQ.children, htreated.composite hQ.value rfl⟩

end

/-! ## The main result -/

namespace Run

/-- In every run of what the standard mapper makes of a chain over the standard registry, whether
it is valid or not, an object whose value has come through the check of its kind holds exactly the
final values of its members and the unknown keys that it allows, and names those that it forbids;
such a list holds the final values of its items. -/
theorem held_values {c : Chain} (hc : c.Built Registry.standard) {e : Entity}
    (h : Mapper.standard.compile c = .ok e) (input : Option Value) {id : TrackerId} {k : Tracker}
    (hk : (e.run input).tree.get? id = some k) :
    ∃ inner, e.at? ((e.run input).tree.pathOf id) = some inner ∧ k.entity = some inner.id ∧
      c.at? ((e.run input).tree.pathOf id) = some inner.source ∧
      ∀ raw, input.bind (·.at? ((e.run input).tree.pathOf id)) = some raw →
        (∀ fields checked, inner.source.kind = .object fields →
          inner.source.Checks raw (.object checked) →
          HoldsMembers (e.run input).tree id inner.source.props.unknownKeys (fields.map (·.1))
            checked k) ∧
        ∀ item checked, inner.source.kind = .array (some item) →
          inner.source.Checks raw (.list checked) → HoldsItems (e.run input).tree id checked k := by
  have hstandard := Entity.standard_of_built hc h
  obtain ⟨hsource, hfits⟩ := Mapper.compile_fits h
  obtain ⟨inner, k₀, hinner, hk₀, htold, hraw⟩ := Entity.run_tracker (Mapper.compile_arranged h)
    input (TrackerTree.lt_size_of_get? hk)
  have hinner' := hstandard _ _ hinner
  obtain ⟨parts, made⟩ := htold.makes hk
  refine ⟨inner, hinner, htold.owner hk₀ hk, hsource ▸ hfits.source_at? hinner,
    fun raw hvalue => ?_⟩
  rw [← hraw (hstandard.mono fun _ => Entity.Standard.handsOn)] at hvalue
  exact ⟨fun fields checked hkind => hinner'.holdsMembers hkind hk₀ made hvalue,
    fun item checked hkind => hinner'.holdsItems hkind hk₀ made hvalue⟩

/-- The scores beside a key that no member has. -/
def notedScores : List (String × Value) :=
  [("note", .str "late"), ("scores", .list [.num (.int 1), .str "high"])]

theorem held_values_scores :
    let r := scorer.run (some (.object notedScores))
    scoring.Built Registry.standard ∧ Mapper.standard.compile scoring = .ok scorer ∧
    (∃ k, r.tree.get? 0 = some k ∧ HoldsMembers r.tree 0 .strip ["scores"] notedScores k) ∧
    ∃ k, r.tree.get? 1 = some k ∧ HoldsItems r.tree 1 [.num (.int 1), .str "high"] k := by
  intro r
  have hsize : r.tree.size = 4 := by decide +kernel
  have hroot : r.tree.pathOf 0 = [] := by decide +kernel
  have hlist : r.tree.pathOf 1 = ["scores"] := by decide +kernel
  refine ⟨built_scoring, compile_scoring, ?_, ?_⟩
  · obtain ⟨k, hk⟩ := TrackerTree.exists_get? (show 0 < r.tree.size by omega)
    obtain ⟨inner, hinner, -, -, hheld⟩ := held_values built_scoring compile_scoring _ hk
    rw [hroot] at hinner hheld
    obtain rfl := Option.some.inj hinner
    exact ⟨k, hk, (hheld _ rfl).1 _ _ rfl (.plain rfl rfl)⟩
  · obtain ⟨k, hk⟩ := TrackerTree.exists_get? (show 1 < r.tree.size by omega)
    obtain ⟨inner, hinner, -, -, hheld⟩ := held_values built_scoring compile_scoring _ hk
    rw [hlist] at hinner hheld
    obtain rfl := Option.some.inj hinner
    exact ⟨k, hk, (hheld _ rfl).2 _ _ rfl (.plain rfl rfl)⟩

end Run

end Intake
