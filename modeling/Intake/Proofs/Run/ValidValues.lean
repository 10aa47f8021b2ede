import Intake.Proofs.Run.FailingChildren
/-!
# Values of a valid run

In a valid run no tracker has an issue, so every presence rule and every type check was met
(`valid_values`): a required value is there and a forbidden one is not, a value of a typed kind
that was there has its type in the end, and an object has the keys of its required members and
none of its forbidden ones.

The rules are met when they are checked; what comes later keeps them, because no standard step
makes a value undefined or gives it another type.
-/

namespace Intake

/-! ## Presence -/

namespace Change

variable {parts : String → Part} {k l : Tracker}

/-- The inspections of all kinds but custom ones leave a defined value defined. -/
theorem inspects_isSome {hooks : Hooks} (hv : k.value.isSome = true)
    (h : inspects parts hooks k l) (hcustom : ∀ custom, hooks ≠ .custom custom) :
    l.value.isSome = true := by
  cases h.inspected with
  | kept _ _ | refused _ _ => exact hv
  | items _ _ _ | members _ _ _ => rfl
  | custom custom => exact absurd rfl (hcustom custom)

theorem converts_isSome {hooks : Hooks} (hv : k.value.isSome = true) (h : converts hooks k l)
    (hcustom : ∀ custom, hooks ≠ .custom custom) : l.value.isSome = true := by
  obtain rfl : l = k.setValue (converted hooks k.value) := h
  show (converted hooks k.value).isSome = true
  cases hooks with
  | custom custom => exact absurd rfl (hcustom custom)
  | date format =>
    cases format with
    | none => exact hv
    | some pattern =>
      unfold converted
      dsimp only
      cases ((k.value.bind Value.asString?).bind Date.readIso).bind (·.write pattern) with
      | none => exact hv
      | some text => rfl
  | _ => exact hv

theorem pipeline_isSome {p : Pipeline} {inspect convert : Change} (hv : k.value.isSome = true)
    (hissues : k.hasIssues = false) (h : pipeline p inspect convert k l)
    (hinspect : ∀ k l, k.value.isSome = true → inspect k l → l.value.isSome = true)
    (hconvert : ∀ k l, k.value.isSome = true → convert k l → l.value.isSome = true) :
    l.value.isSome = true := by
  have hstep : ∀ {s : CompiledStep} {k l : Tracker}, step s k l → l.value.isSome = true := by
    rintro s k l ⟨args, rfl⟩
    rfl
  exact pipeline_keeps (P := fun m => m.value.isSome = true) (Q := fun m => m.value.isSome = true) h
    hv hissues (fun _ _ _ _ _ _ hs => hstep hs) (fun _ hm _ => hm)
    (fun _ _ hm _ hs => hinspect _ _ hm hs) (fun _ _ _ _ _ _ hs => hstep hs)
    (fun _ _ hm _ hs => hconvert _ _ hm hs)

end Change

namespace Entity

variable {e : Entity} {parts : String → Part} {k l : Tracker}

/-- A defined value stays defined. -/
theorem behaves_isSome {source : Chain} {body : Body} (hbody : FitsBody source body)
    (hv : k.value.isSome = true) (hissues : k.hasIssues = false)
    (h : Change.behaves parts body k l) : l.value.isSome = true := by
  cases body with
  | base => exact (show l = k from h) ▸ hv
  | reference path p =>
    exact Change.pipeline_isSome hv hissues h (fun _ _ hv hs => hs ▸ hv) fun _ _ hv hs => hs ▸ hv
  | behaviour p hooks =>
    have hcustom : ∀ custom, hooks ≠ .custom custom := by
      rintro custom rfl
      exact FitsBody.not_custom hbody
    exact Change.pipeline_isSome hv hissues h
      (fun _ _ hv hs => Change.inspects_isSome hv hs hcustom)
      fun _ _ hv hs => Change.converts_isSome hv hs hcustom

/-- Without an issue, the presence rules are met. -/
theorem Standard.presence (h : e.Standard) (hk : k.Untouched) (made : e.Makes parts k l)
    (hl : l.hasIssues = false) :
    (e.source.props.required = true → l.value.isSome = true) ∧
      (e.source.props.forbidden = true → l.value = none) := by
  obtain ⟨m, hreplaces, hjudges⟩ := made
  have hpresence := h.fits.presence
  have hrecord : ∀ issue, l ≠ m.record issue := by
    rintro issue rfl
    exact absurd ((Tracker.hasIssues_record issue).symm.trans hl) nofun
  cases hjudges.judged with
  | missing _ _ | forbidden _ _ => exact absurd rfl (hrecord _)
  | substituted hv hoptional h =>
    refine ⟨fun hrequired => absurd (hoptional.symm.trans hrequired) nofun, fun hforbidden => ?_⟩
    -- what is forbidden has no default
    cases hd : e.source.props.default? with
    | none =>
      rw [hd] at h
      rw [show l = m from h, hv]
    | some operand =>
      unfold Chain.presenceConflict? at hpresence
      simp only [hforbidden, hd, Bool.and_true, Option.isSome_some, if_pos] at hpresence
      split at hpresence <;> cases hpresence
  | behaved hv hallowed hbehaves =>
    have hissues : m.hasIssues = false := by
      obtain ⟨v, rfl⟩ := Change.replaces_eq hreplaces
      rw [Tracker.hasIssues, show (Tracker.setValue v (k.claim e.id)).issues = [] from hk.issues]
      rfl
    exact ⟨fun _ => behaves_isSome h.fits.body hv hissues hbehaves,
      fun hforbidden => absurd (hallowed.symm.trans hforbidden) nofun⟩

/-- Where nothing failed, a value of a typed kind that was there has been processed. -/
theorem Standard.reached (h : e.Standard) (hk : k.Untouched) (made : e.Makes parts k l)
    (hl : l.hasIssues = false) (hv : k.value.isSome = true)
    (htyped : e.source.kind.typeTest?.isSome = true) : Made parts e.source.kind k l :=
  (h.makes hk made).resolve_left fun hunreached =>
    absurd ((hunreached.failed htyped hv).symm.trans hl) nofun

end Entity

/-- What a typed kind has made has its type. -/
theorem Made.typed {parts : String → Part} {kind : Kind} {k l : Tracker}
    (h : Made parts kind k l) (hl : l.hasIssues = false) {ok : Value → Bool}
    (hok : kind.typeTest? = some ok) : l.value.any ok = true := by
  unfold Made at h
  split at h
  · obtain ⟨output, hvalue, -⟩ := h.value
    rw [hvalue, ← Option.some.inj hok]
    rfl
  · obtain ⟨n, h⟩ := h
    obtain ⟨items, hvalue⟩ := h.value
    rw [hvalue, ← Option.some.inj hok]
    rfl
  · exact (h.value ok hok).resolve_left fun hissues => absurd (hissues.symm.trans hl) nofun

/-! ## Clean trees -/

namespace Told

open TrackerTree

variable {t : TrackerTree} {e : Entity} {k l : Tracker} {x y : TrackerId}

/-- Without issues below a tracker, there are none on the trackers below it. -/
theorem clean (hl : t.Linked) {segments : List String} (h : Told t e k x)
    (hclean : t.hasIssuesBelow x = false) (hy : t.follow x segments = some y) :
    t.hasIssues y = false := by
  induction segments generalizing x e k with
  | nil =>
    obtain rfl : x = y := Option.some.inj hy
    cases h with
    | @mk e k l x raw get made nodup known inner =>
      rw [← Bool.not_eq_true] at hclean ⊢
      intro hissues
      rw [hasIssues, get] at hissues
      exact hclean ((hasIssuesBelow_iff hl get nodup).2 (.inl hissues))
  | cons s rest ih =>
    rw [follow_cons, Option.bind_eq_some_iff] at hy
    obtain ⟨c, hc, hy⟩ := hy
    cases h with
    | @mk e k l x raw get made nodup known inner =>
      obtain ⟨member, hm⟩ := known hc
      refine ih (inner hc hm) ?_ hy
      rw [← Bool.not_eq_true] at hclean ⊢
      exact fun hbelow => hclean ((hasIssuesBelow_iff hl get nodup).2 (.inr ⟨s, c, hc, hbelow⟩))

/-- Without an issue, the presence rules are met. -/
theorem presence (h : Told t e k x) (hs : e.Standard) (hk : k.Untouched)
    (hclean : t.hasIssues x = false) :
    (e.source.props.required = true → (t.value? x).isSome = true) ∧
      (e.source.props.forbidden = true → t.value? x = none) := by
  cases h with
  | @mk e k l x raw get made nodup known inner =>
    rw [hasIssues, get] at hclean
    rw [value?, get]
    exact hs.presence hk made hclean

/-- Of an object without issues below, the required fields are defined and the forbidden ones are
not. -/
theorem fields_presence (hl : t.Linked) (h : Told t e k x) (hs : e.Throughout Entity.Standard)
    (hclean : t.hasIssuesBelow x = false) {fields : List (String × Chain)}
    (hkind : e.source.kind = .object fields) {field : String × Chain} (hfield : field ∈ fields)
    (hall : ∀ l, t.get? x = some l → Table.names l.children = fields.map (·.1)) :
    (field.2.props.required = true → ((t.child? x field.1).bind t.value?).isSome = true) ∧
      (field.2.props.forbidden = true → (t.child? x field.1).bind t.value? = none) := by
  cases h with
  | @mk e k l x raw get made nodup known inner =>
    have hnames := hall l get
    have hmem : field.1 ∈ Table.names l.children := hnames ▸ List.mem_map_of_mem hfield
    obtain ⟨c, hc⟩ : ∃ c, t.child? x field.1 = some c := by
      rw [child?_of_get? get]
      exact Option.isSome_iff_exists.1 (Table.contains_iff.2 hmem)
    obtain ⟨member, hm⟩ := known hc
    -- the names of the fields are those of the children, so none stands twice
    have hsource : Table.get? fields field.1 = some member.source := by
      have hchild := (hs [] e rfl).fits.child? hm
      rw [hkind] at hchild
      exact hchild
    have hfields : (Table.names fields).Nodup := by
      rw [hnames] at nodup
      exact nodup
    rw [Table.get?_of_mem hfields hfield] at hsource
    have htold := inner hc hm
    have hfollow : t.follow x [field.1] = some c := by
      rw [follow_cons, hc]
      rfl
    have hclean' : t.hasIssues c = false :=
      clean hl (.mk get made nodup known inner) hclean hfollow
    rw [hc, Option.some.inj hsource]
    exact htold.presence ((hs.child hm) [] member rfl) ⟨rfl, rfl, rfl⟩ hclean'

/-- Without an issue, a value that was there has the type of its kind. -/
theorem typed (h : Told t e k x) (hs : e.Standard) (hk : k.Untouched) (get : t.get? x = some l)
    (hclean : t.hasIssues x = false) (hvalue : k.value.isSome = true) {ok : Value → Bool}
    (hok : e.source.kind.typeTest? = some ok) : l.value.any ok = true := by
  rw [hasIssues, get] at hclean
  obtain ⟨raw, made⟩ := h.makes get
  exact (hs.reached hk made hclean hvalue (Option.isSome_iff_exists.2 ⟨ok, hok⟩)).typed hclean hok

/-- Without issues below it, an object that was there has the keys of the required fields and of
no forbidden one. -/
theorem keys (hl : t.Linked) (h : Told t e k x) (hs : e.Throughout Entity.Standard)
    (hk : k.Untouched) (get : t.get? x = some l) (hclean : t.hasIssuesBelow x = false)
    (hvalue : k.value.isSome = true) {fields : List (String × Chain)}
    (hkind : e.source.kind = .object fields) :
    ∃ output, l.value = some (.object output) ∧ ∀ field ∈ fields,
      (field.2.props.required = true → field.1 ∈ output.map (·.1)) ∧
      (field.2.props.forbidden = true → field.1 ∉ output.map (·.1)) := by
  have hissues : l.hasIssues = false := by
    have := hclean
    rw [h.hasIssuesBelow_eq hl (hs [] e rfl) hk, hasIssues, get] at this
    exact this
  obtain ⟨raw, made⟩ := h.makes get
  have hmade := (hs [] e rfl).reached hk made hissues hvalue (by rw [hkind]; rfl)
  rw [hkind] at hmade
  have hmade : MadeObject (t.parts x raw) (fields.map (·.1)) k l := hmade
  obtain ⟨output, houtput, hkeys⟩ := hmade.value
  refine ⟨output, houtput, fun field hfield => ?_⟩
  have hname : field.1 ∈ fields.map (·.1) := List.mem_map_of_mem hfield
  have hpresence := h.fields_presence hl hs hclean hkind hfield fun l' get' =>
    Option.some.inj (get.symm.trans get') ▸ hmade.children
  refine ⟨fun hr => (hkeys _ hname).2 (hpresence.1 hr), fun hf hmem => ?_⟩
  have hdefined := (hkeys _ hname).1 hmem
  rw [show (t.parts x raw field.1).value = none from hpresence.2 hf] at hdefined
  cases hdefined

end Told

/-! ## The main result -/

namespace Run

open TrackerTree

/-- In a valid run of what the standard mapper makes of a chain over the standard registry, the
tracker of each chain has what the chain requires and nothing that it forbids; a value that was
there has the type of the chain; and an object that was there has the keys of all required fields
and of no forbidden one. -/
theorem valid_values {c : Chain} (hc : c.Built Registry.standard) {e : Entity}
    (h : Mapper.standard.compile c = .ok e) (input : Option Value)
    (hvalid : (e.run input).isValid = true) {id : TrackerId} {k : Tracker}
    (hk : (e.run input).tree.get? id = some k) :
    ∃ inner source, e.at? ((e.run input).tree.pathOf id) = some inner ∧
      k.entity = some inner.id ∧ inner.source = source ∧
      c.at? ((e.run input).tree.pathOf id) = some source ∧
      (source.props.required = true → k.value.isSome = true) ∧
      (source.props.forbidden = true → k.value = none) ∧
      ((input.bind (·.at? ((e.run input).tree.pathOf id))).isSome = true →
        (∀ ok, source.kind.typeTest? = some ok → k.value.any ok = true) ∧
        ∀ fields, source.kind = .object fields → ∃ output, k.value = some (.object output) ∧
          ∀ field ∈ fields,
            (field.2.props.required = true → field.1 ∈ output.map (·.1)) ∧
            (field.2.props.forbidden = true → field.1 ∉ output.map (·.1))) := by
  have harranged := Mapper.compile_arranged h
  have hstandard := Entity.standard_of_built hc h
  obtain ⟨hsource, hfits⟩ := Mapper.compile_fits h
  obtain ⟨hl, hroot, hpath, hbelow⟩ := Entity.run_told harranged input
  have hid := lt_size_of_get? hk
  obtain ⟨inner, k₀, hinner, hk₀, htold, hraw⟩ := Entity.run_tracker harranged input hid
  have hinner' : inner.Throughout Entity.Standard := hstandard.at? hinner
  have hclean : (e.run input).tree.hasIssues id = false := by
    obtain ⟨segments, hf⟩ := hbelow id hid
    refine hroot.clean hl ?_ hf
    simpa [isValid] using hvalid
  have hbelow' : (e.run input).tree.hasIssuesBelow id = false :=
    (htold.hasIssuesBelow_eq hl (hinner' [] inner rfl) hk₀).trans hclean
  have hpresence := htold.presence (hinner' [] inner rfl) hk₀ hclean
  rw [TrackerTree.value?, hk] at hpresence
  rw [← hraw (hstandard.mono fun _ => Entity.Standard.handsOn)]
  exact ⟨inner, inner.source, hinner, htold.owner hk₀ hk, rfl, hsource ▸ hfits.source_at? hinner,
    hpresence.1, hpresence.2, fun hsome =>
      ⟨fun ok hok => htold.typed (hinner' [] inner rfl) hk₀ hk hclean hsome hok,
        fun fields hkind => htold.keys hl hinner' hk₀ hk hbelow' hsome hkind⟩⟩

theorem valid_values_scores :
    let input := some (.object [("scores", .list [.num (.int 1), .num (.int 2)])])
    let r := scorer.run input
    scoring.Built Registry.standard ∧ Mapper.standard.compile scoring = .ok scorer ∧
      r.isValid = true ∧ ∃ k, r.tree.get? 1 = some k ∧ k.entity = some 1 ∧
        k.value.any (fun v => v.asList?.isSome) = true := by
  intro input r
  have hvalid : r.isValid = true := by decide +kernel
  have hsize : r.tree.size = 4 := by decide +kernel
  have hlist : r.tree.pathOf 1 = ["scores"] := by decide +kernel
  obtain ⟨k, hk⟩ := TrackerTree.exists_get? (show 1 < r.tree.size by omega)
  obtain ⟨inner, source, hinner, howner, rfl, -, -, -, htyped⟩ :=
    valid_values built_scoring compile_scoring input hvalid hk
  rw [hlist] at hinner htyped
  obtain rfl := Option.some.inj hinner
  exact ⟨built_scoring, compile_scoring, hvalid, k, hk, howner, (htyped rfl).1 _ rfl⟩

end Run

end Intake
