import Intake.Proofs.Entity.Standard
import Intake.Proofs.Run.Children
/-!
# What members read of one another

A member of an object that looks up another one finds what that is at the time: its final value if
it has run before, and else what the input has at its address.  The order of the schedule decides
which of the two it is (`Reading.sibling`), for the members of every object inside of an entity:

    Arranged own e → e.Throughout Standard → Bare id r k →
      Readings e k.value id r … (e.process id r)

A look-up that leads out of the tracker that is processed finds what was there before
(`Reading.outside`), so the readings of a member are readings of the object around it.
-/

namespace Intake

namespace Run

open Entity TrackerTree

/-! ## Up to the inspection -/

section

variable {Inv : Run → Prop} {paths : List Path} {p : Pipeline} {hooks : Hooks} {id : TrackerId}
  {r : Run} {k : Tracker}

/-- A standard pipeline inspects the value that it was given, unless the format step has made a
single value of it. -/
theorem runPipeline_inspects (hp : p.Registered Registry.standard)
    (hpaths : ∀ path ∈ p.references, path ∈ paths) (hInv : Keeps paths id Inv)
    (hk : r.tree.get? id = some k) (hquiet : k.Quiet) (h : Inv r)
    (inspected : ∀ r k', r.tree.get? id = some k' →
      (k'.value = k.value ∨ k'.value.any Value.isComposite = false) → Inv r →
        Inv (inspect hooks id r)) :
    Inv (runPipeline p (inspect hooks) (convert hooks) id r) := by
  have hstep : ∀ s ∈ p.toList, ∀ path ∈ s.args.filterMap (·.path?), path ∈ paths :=
    fun s hs path hpath => hpaths path (List.mem_flatMap.2 ⟨s, hs, hpath⟩)
  have hlast : ∀ r, Inv r → Inv (runSteps (convert hooks) p.steps id r) := fun r hr =>
    (Local.runSteps (local_convert hooks) fun s hs =>
      hstep s (List.mem_append_right _ hs)).keeps_own hInv hr
  unfold runPipeline
  cases hf : p.format with
  | none => exact andThen_keeps (inspected r k hk (.inl rfl) h) hlast
  | some s =>
    obtain ⟨l, hl, -, htree⟩ := Applies.runStep s id r k hk
    have hget : (runStep s id r).tree.get? id = some l := by
      rw [htree, get?_update_self, hk, Option.map_some]
    have hafter : Inv (runStep s id r) :=
      (Local.runStep s (hstep s (by simp [Pipeline.toList, hf]))).keeps_own hInv h
    obtain ⟨-, -, hread⟩ := Change.step_format (hp.format s hf) hquiet hl
    show Inv (andThen (runStep s) _ id r)
    cases hissues : l.hasIssues with
    | true =>
      rw [andThen_of_issues ((hasIssues_of_get? hget).trans hissues)]
      exact hafter
    | false =>
      rw [andThen_of_clean ((hasIssues_of_get? hget).trans hissues)]
      have hsingle := hread.resolve_left fun ht =>
        absurd (hissues.symm.trans ht) Bool.false_ne_true
      exact andThen_keeps (inspected _ l hget (.inr hsingle) hafter) hlast

/-- A standard entity inspects the value that its tracker begins with, unless the format step has
made a single value of it. -/
theorem process_inspects {n : Nat} {source : Chain} {resolver : Option Entity}
    (hr : Resolves source.props.default? resolver) (hp : p.Registered Registry.standard)
    (hInv : Keeps (references (.mk n source resolver (.behaviour p hooks))) id Inv)
    (hk : r.tree.get? id = some k) (hquiet : k.Quiet) (h : Inv r)
    (inspected : ∀ r k', r.tree.get? id = some k' →
      (k'.value = k.value ∨ k'.value.any Value.isComposite = false) → Inv r →
        Inv (inspect hooks id r)) :
    Inv ((Entity.mk n source resolver (.behaviour p hooks)).process id r) := by
  have hreferences : ∀ path, path ∈ references (.mk n source resolver (.behaviour p hooks)) ↔
      source.props.default?.bind (·.path?) = some path ∨ path ∈ p.references ∨
        path ∈ hookReferences hooks := by
    intro path
    simp [references, mem_distinct, bodyReferences, target?]
  obtain ⟨_, rfl, -, htree⟩ := Applies.start n id r k hk
  have hstart : (start n id r).tree.get? id = some (k.claim n) := by
    rw [htree, get?_update_self, hk, Option.map_some]
  have hfirst : Inv (start n id r) := (local_start n).keeps_own hInv h
  unfold Entity.process
  show Inv (judge source resolver (.behaviour p hooks) ((start n id r).value? id) id (start n id r))
  rw [value?_of_get? hstart, show (k.claim n).value = k.value from rfl]
  cases hv : k.value with
  | none =>
    refine (Local.cond _ (.record _) (local_substitute hr fun path hpath => ?_)).keeps_own hInv
      hfirst
    exact (hreferences path).2 (.inl hpath)
  | some v =>
    have hbehave : Inv (behave (.behaviour p hooks) id (start n id r)) := by
      have hentered : ((start n id r).enter id).tree.get? id = some (k.claim n) := hstart
      have hinside : Inv (runPipeline p (inspect hooks) (convert hooks) id
          ((start n id r).enter id)) :=
        runPipeline_inspects hp (fun path hpath => (hreferences path).2 (.inr (.inl hpath))) hInv
          hentered hquiet (hInv.enter hfirst) inspected
      unfold behave
      exact hInv.tally (r := runPipeline p (inspect hooks) (convert hooks) id _) rfl rfl hinside
    unfold judge
    dsimp only
    split
    · exact hInv.touch (Tracker.onContent_record _) hfirst
    · exact hbehave

theorem quiet_of_bare (h : Intake.Bare id r k) : k.Quiet :=
  Tracker.quiet_of_nil (by simpa [Tracker.hasIssues] using h.issues)

end

/-! ## Readings -/

/-- What a look-up for `x` that found `found` has read in the course of the work at `id`, which
began with the tree `t₀` and the value `v` and has come to `t`, with `P` still to be processed.  A
tracker that was there before has kept its value.  A member of an object is final if it stands
before the member that holds the reader, and else is what it was given. -/
structure Reading (e : Entity) (v : Option Value) (id : TrackerId) (t₀ : TrackerTree)
    (P : TrackerId → Prop) (t : TrackerTree) (x found : TrackerId) (value : Option Value) :
    Prop where
  reader : x < t.size
  target : found < t.size
  outside : found < t₀.size → found ≠ id → value = t₀.value? found
  sibling : ∀ {object : List String} {n : String} {below : List String} {m : String}
    {schedule : Schedule String} {before after : List String}, n ≠ m →
    (e.at? object).bind schedule? = some schedule →
    schedule.cached = some (before ++ n :: after) → (e.at? (object ++ [m])).isSome →
    t.follow id (object ++ n :: below) = some x → t.follow id (object ++ [m]) = some found →
      if m ∈ before then value = t.value? found ∧ ¬ P found
      else value = v.bind (·.at? (object ++ [m]))

/-- The work at `id` has come from `r₀` to `r`, with `P` still to be processed, and has looked up
what it should. -/
structure Readings (e : Entity) (v : Option Value) (id : TrackerId) (r₀ : Run)
    (P : TrackerId → Prop) (r : Run) : Prop where
  advances : Advances id r₀ r
  reads : ∃ new, r.trace = new ++ r₀.trace ∧ ∀ x path found value,
    .lookedUp x path (some found) value ∈ new → Reading e v id r₀.tree P r.tree x found value

section

variable {e : Entity} {v : Option Value} {id : TrackerId} {r₀ r r' : Run} {P P' : TrackerId → Prop}

/-- Work at the tracker itself, or at a child that is to be processed, changes nothing of a
reading. -/
theorem Reading.grows {t₀ t t' : TrackerTree} {x found y : TrackerId} {value : Option Value}
    (h : Reading e v id t₀ P t x found value) (hg : Grows y t t') (hy : y = id ∨ P y)
    (hP : ∀ z < t.size, P' z → P z) : Reading e v id t₀ P' t' x found value := by
  refine ⟨Nat.lt_of_lt_of_le h.reader hg.size, Nat.lt_of_lt_of_le h.target hg.size, h.outside,
    fun {object n below m schedule before after} hne hobject hcached hm hx hfound => ?_⟩
  have hread := h.sibling hne hobject hcached hm (hg.follow_old hx h.reader)
    (hg.follow_old hfound h.target)
  split
  · next hbefore =>
    rw [if_pos hbefore] at hread
    obtain ⟨hvalue, hdone⟩ := hread
    have hother : found ≠ y := by
      rintro rfl
      rcases hy with rfl | hy
      · exact Nat.lt_irrefl _ (Below.lt_of_follow hg.linked (by simp) hfound)
      · exact hdone hy
    exact ⟨hvalue.trans (hg.value?_eq h.target hother).symm, fun hfP => hdone (hP _ h.target hfP)⟩
  · next hbefore =>
    rwa [if_neg hbefore] at hread

/-- A reading of a child, which has been processed in the course of the work, if those of the
direct siblings of the child are right. -/
theorem Reading.of_child {member : Entity} {name : String} {w : Option Value}
    {t₀ t t' : TrackerTree} {c x found : TrackerId} {value : Option Value}
    (h : Reading member w c t (fun _ => False) t' x found value)
    (hm : e.child? name = some member) (hw : w = v.bind (·.under? name)) (hg₀ : Grows id t₀ t)
    (hg : Grows c t t') (hnew : t₀.size ≤ c) (hlt : c < t.size) (hbare : ∀ s, t.child? c s = none)
    (hc : t'.child? id name = some c) (hx : t'.Below c x) (hP : ∀ z, P z → z < t.size)
    (direct : ∀ {m : String} {schedule : Schedule String} {before after : List String},
      name ≠ m → e.schedule? = some schedule → schedule.cached = some (before ++ name :: after) →
      (e.child? m).isSome → t'.child? id m = some found →
        if m ∈ before then value = t'.value? found ∧ ¬ P found else value = v.bind (·.under? m)) :
    Reading e v id t₀ P t' x found value := by
  have hout : found < t₀.size → found ≠ id → value = t₀.value? found := by
    intro hfound hne
    have hne' : found ≠ c := Nat.ne_of_lt (Nat.lt_of_lt_of_le hfound hnew)
    rw [h.outside (Nat.lt_of_lt_of_le hfound hg₀.size) hne', hg₀.value?_eq hfound hne]
  refine ⟨h.reader, h.target, hout,
    fun {object n below m schedule before after} hne hobject hcached hmember hreader hfound => ?_⟩
  cases object with
  | nil =>
    rw [List.nil_append, follow_cons, Option.bind_eq_some_iff] at hreader
    obtain ⟨d, hd, hreader⟩ := hreader
    obtain rfl : name = n := hg.linked.sibling_of_below hc hd hx ⟨below, hreader⟩
    rw [List.nil_append, follow_singleton] at hfound
    rw [List.nil_append, Entity.at?_singleton] at hmember
    rw [List.nil_append, funext fun v => Value.at?_singleton v m]
    exact direct hne hobject hcached hmember hfound
  | cons s rest =>
    rw [List.cons_append, follow_cons, Option.bind_eq_some_iff] at hreader hfound
    obtain ⟨d, hd, hreader⟩ := hreader
    obtain rfl : name = s := hg.linked.sibling_of_below hc hd hx ⟨_, hreader⟩
    obtain ⟨d', hd', hfound⟩ := hfound
    obtain rfl : c = d := Option.some.inj (hc.symm.trans hd)
    obtain rfl : c = d' := Option.some.inj (hc.symm.trans hd')
    rw [Entity.at?, hm] at hobject
    rw [List.cons_append, Entity.at?, hm] at hmember
    have hread := h.sibling hne hobject hcached hmember hreader hfound
    split
    · next hbefore =>
      rw [if_pos hbefore] at hread
      have hle := hg.follow_new hbare hlt (by simp) hfound
      exact ⟨hread.1, fun hfP => Nat.not_le.2 (hP _ hfP) hle⟩
    · next hbefore =>
      rw [if_neg hbefore, hw, Option.bind_assoc] at hread
      exact hread

namespace Readings

theorem refl (hl : r.tree.Linked) (e : Entity) (v : Option Value) (id : TrackerId)
    (P : TrackerId → Prop) : Readings e v id r P r :=
  ⟨.refl hl id, [], rfl, by simp⟩

/-- The work goes on, at the tracker itself or at a child that is to be processed. -/
theorem trans {y : TrackerId} (h : Readings e v id r₀ P r) (ha : Advances y r r')
    (hy : y = id ∨ P y ∧ r₀.tree.size ≤ y) (hP : ∀ z < r.tree.size, P' z → P z)
    (hnew : ∃ new, r'.trace = new ++ r.trace ∧ ∀ x path found value,
      .lookedUp x path (some found) value ∈ new →
        Reading e v id r₀.tree P' r'.tree x found value) : Readings e v id r₀ P' r' := by
  obtain ⟨old, hold, hread⟩ := h.reads
  obtain ⟨new, hnew, hread'⟩ := hnew
  refine ⟨h.advances.trans ha (hy.imp_right And.right), new ++ old,
    by rw [hnew, hold, List.append_assoc], fun x path found value hmem => ?_⟩
  rcases List.mem_append.1 hmem with hmem | hmem
  · exact hread' x path found value hmem
  · exact (hread x path found value hmem).grows ha.grows (hy.imp_right And.left) hP

/-- The tracker itself changes, or gets children. -/
theorem own (h : Readings e v id r₀ P r) (hg : Grows id r.tree r'.tree)
    (hP : ∀ z < r.tree.size, P' z → P z) (htrace : r'.trace = r.trace) :
    Readings e v id r₀ P' r' :=
  h.trans (.of_grows hg htrace) (.inl rfl) hP ⟨[], htrace, by simp⟩

/-- What work on the tracker alone keeps. -/
theorem keeps (e : Entity) (v : Option Value) (hid : id < r₀.tree.size) (paths : List Path) :
    Keeps paths id (Readings e v id r₀ fun _ => False) where
  touch hf h := h.own (.update h.advances.grows.linked id hf) (fun _ _ hz => hz) rfl
  tally htree htrace h :=
    h.own (htree ▸ .refl h.advances.grows.linked id) (fun _ _ hz => hz) htrace
  note {event r} he hlook h := by
    refine h.trans (.note h.advances.grows.linked he) (.inl rfl) (fun _ _ hz => hz)
      ⟨[event], rfl, fun x path found value hmem => ?_⟩
    rw [← List.mem_singleton.1 hmem] at hlook
    cases hlook
  lookUp {path r} hp h := by
    have hl := h.advances.grows.linked
    have hlt := h.advances.lt hid
    refine h.trans (.note hl rfl) (.inl rfl) (fun _ _ hz => hz)
      ⟨[_], rfl, fun x path' found value hmem => ?_⟩
    obtain ⟨rfl, rfl, hfound, hvalue⟩ := Event.lookedUp.inj (List.mem_singleton.1 hmem)
    rw [← hfound, Option.bind_some] at hvalue
    -- the reader is the tracker itself, not something below it
    refine ⟨hlt, hl.locateFrom_lt hlt hfound.symm, fun hold hne => ?_,
      fun _ _ _ _ hreader _ => ?_⟩
    · exact hvalue.trans (h.advances.grows.value?_eq hold hne)
    · exact absurd (Below.lt_of_follow hl (by simp) hreader) (Nat.lt_irrefl _)

/-- A child is processed. -/
theorem child {own : Option String} {member : Entity} {name : String} {c : TrackerId} {k : Tracker}
    (h : Readings e v id r₀ P r) (hid : id < r₀.tree.size) (harranged : Arranged own member)
    (hm : e.child? name = some member) (hk : k.value = v.bind (·.under? name))
    (hb : Intake.Bare c r k) (hc : r.tree.child? id name = some c) (hnew : r₀.tree.size ≤ c)
    (hPc : P c) (hP : ∀ z, P' z → P z ∧ z < r.tree.size)
    (h' : Readings member k.value c r (fun _ => False) (member.process c r))
    (direct : ∀ {x found : TrackerId} {value : Option Value}, Reading member k.value c r.tree
      (fun _ => False) (member.process c r).tree x found value →
      ∀ {m : String} {schedule : Schedule String} {before after : List String},
      name ≠ m → e.schedule? = some schedule → schedule.cached = some (before ++ name :: after) →
      (e.child? m).isSome → r.tree.child? id m = some found →
        if m ∈ before then value = r.tree.value? found ∧ ¬ P' found
        else value = v.bind (·.under? m)) :
    Readings e v id r₀ P' (member.process c r) := by
  have hlt : c < r.tree.size := lt_size_of_get? hb.get
  have hbare : ∀ s, r.tree.child? c s = none := fun s => by
    rw [child?_of_get? hb.get, Tracker.child?, hb.children]
    rfl
  obtain ⟨raw, l, -, hfamily⟩ := process_yields harranged c r k hb
  obtain ⟨new, htrace, hread⟩ := h'.reads
  obtain ⟨new', htrace', habout⟩ := h'.advances.trace
  obtain rfl : new = new' := List.append_cancel_right (htrace.symm.trans htrace')
  have hg := h'.advances.grows
  have hchild : ∀ s, (member.process c r).tree.child? id s = r.tree.child? id s :=
    hg.child?_eq (h.advances.lt hid) (Nat.ne_of_lt (Nat.lt_of_lt_of_le hid hnew))
  refine h.trans h'.advances (.inr ⟨hPc, hnew⟩) (fun z _ hz => (hP z hz).1)
    ⟨new, htrace, fun x path found value hmem => ?_⟩
  have hreading := hread x path found value hmem
  have hbelow : (member.process c r).tree.Below c x := by
    rcases habout _ hmem with hx | hx
    · exact (show x = c from hx) ▸ .refl _ _
    · exact hfamily.below hx hreading.reader
  refine hreading.of_child hm hk h.advances.grows hg hnew hlt hbare ((hchild name).trans hc) hbelow
    (fun z hz => (hP z hz).2) fun {m schedule before after} hne hs hcached hm' hfound => ?_
  rw [hchild] at hfound
  have hother : found ≠ c := by
    rintro rfl
    exact hne (hb.linked.child?_inj hc hfound).2
  rw [hg.value?_eq (hb.linked.child_lt_size hfound) hother]
  exact direct hreading hne hs hcached hm' hfound

end Readings

end

/-! ## Processing -/

theorem registered_of_standard {n : Nat} {source : Chain} {resolver : Option Entity} {p : Pipeline}
    {hooks : Hooks} (h : Standard (.mk n source resolver (.behaviour p hooks))) :
    p.Registered Registry.standard := by
  have hp : p = Pipeline.ofSteps source.pipeline := h.fits.body.pipeline_eq rfl
  exact hp ▸ h.pipeline

/-- What comes to the inspection, if it is a list or an object, is what the tracker began with. -/
theorem value?_of_composite {id : TrackerId} {r : Run} {k k' : Tracker} {v : Value}
    (hk : r.tree.get? id = some k') (hv : r.value? id = some v) (hcomposite : v.isComposite = true)
    (hvalue : k'.value = k.value ∨ k'.value.any Value.isComposite = false) : k.value = some v := by
  rw [value?_of_get? hk] at hv
  rcases hvalue with hsame | hsingle
  · rw [← hsame, hv]
  · rw [hv, Option.any_some, hcomposite] at hsingle
    cases hsingle

section Loops

variable {e : Entity} {id : TrackerId} {r₀ r₁ r : Run}

/-- One item of a list. -/
theorem Readings.item {items : Entity} {values : List Value}
    (h : Readings e (some (.list values)) id r₀ (fun _ => False) r)
    (he : ∀ s, e.child? s = some items) (hs : e.schedule? = none) (hid : id < r₀.tree.size)
    (hi : Arranged none items)
    (ih : ∀ {id : TrackerId} {r : Run} {k : Tracker}, Intake.Bare id r k →
      Readings items k.value id r (fun _ => False) (items.process id r))
    {i : Nat} {v : Value} (hv : values[i]? = some v) :
    Readings e (some (.list values)) id r₀ (fun _ => False) (itemRun items id i v r) := by
  have hl := h.advances.grows.linked
  have hlt := h.advances.lt hid
  have hattach := Grows.attach hl hlt (toString i) (some v)
  have hb : Intake.Bare r.tree.size { r with tree := (r.tree.attach id (toString i) (some v)).2 }
      { value := some v, parent := some id, segment := some (toString i) } :=
    ⟨hattach.linked, get?_attach_size hlt _ _, rfl, rfl⟩
  have hattached : Readings e (some (.list values)) id r₀ (fun x => x = r.tree.size)
      { r with tree := (r.tree.attach id (toString i) (some v)).2 } :=
    h.own hattach (fun z hz hnew => absurd hnew (Nat.ne_of_lt hz)) rfl
  refine hattached.child hid hi (he (toString i)) ?_ hb ?_ h.advances.grows.size rfl
    (fun z hz => hz.elim) (ih hb) fun _ _ _ _ _ _ hs' => ?_
  · exact ((Value.under?_list values i).trans hv).symm
  · exact (child?_attach hlt _ _ _).trans (if_pos rfl)
  · exact nomatch hs.symm.trans hs'

/-- One member of an object. -/
theorem Readings.member {own : Option String} {members : List (String × Entity)}
    {schedule : Schedule String} {escaping : List Path} {keys done rest : List String}
    {name : String} {member : Entity} {c : TrackerId} {t : TrackerTree}
    {input : List (String × Value)}
    (h : Readings e (some (.object input)) id r₀ (Pending id (members.map (·.1)) r₁ done) r)
    (he : ∀ s, e.child? s = Table.get? members s) (hs : e.schedule? = some schedule)
    (ha : schedule.Arranges own (members.map fun m => (m.1, m.2.references)) escaping)
    (hcached : schedule.cached = some keys) (hid : id < r₀.tree.size)
    (harranged : Arranged (some name) member)
    (ih : ∀ {id : TrackerId} {r : Run} {k : Tracker}, Intake.Bare id r k →
      Readings member k.value id r (fun _ => False) (member.process id r))
    (hattached : Attached id (members.map (·.1)) input t r₁.tree) (hle : r₀.tree.size ≤ t.size)
    (hkeys : keys = done ++ name :: rest) (hm : Table.get? members name = some member)
    (hc : r₁.tree.child? id name = some c) (ho : Ongoing id r₀ r₁ done r) :
    Readings e (some (.object input)) id r₀ (Pending id (members.map (·.1)) r₁ (done ++ [name]))
      (member.process c r) := by
  obtain ⟨hserves, -⟩ := runSchedule_cached ha hcached
  have hl := h.advances.grows.linked
  have hname := Table.mem_names_of_get? hm
  have hnext := (hserves.next hkeys).1
  -- a child that is pending is as it was attached
  have hraw : ∀ {s d}, s ∈ members.map (·.1) → s ∉ done → r₁.tree.child? id s = some d →
      r₀.tree.size ≤ d ∧ r.tree.get? d =
        some { value := Value.lookup? s input, parent := some id, segment := some s } := by
    intro s d hs hdone hd
    obtain ⟨d', hd', hle', hget⟩ := hattached.child s hs
    obtain rfl : d = d' := Option.some.inj (hd.symm.trans hd')
    exact ⟨Nat.le_trans hle hle', (ho.pending hdone hd).trans hget⟩
  obtain ⟨hnew, hget⟩ := hraw hname hnext hc
  have hb : Intake.Bare c r _ := ⟨hl, hget, rfl, rfl⟩
  refine h.child hid harranged ((he name).trans hm) rfl hb ((ho.child?_eq name).trans hc) hnew
    ⟨name, hname, hnext, hc⟩ ?_ (ih hb) ?_
  · rintro z ⟨s, hs, hdone, hz⟩
    exact ⟨⟨s, hs, fun hmem => hdone (List.mem_append_left _ hmem), hz⟩,
      hl.child_lt_size ((ho.child?_eq s).trans hz)⟩
  · intro x found value hread m schedule' before after hne hs' hcached' hm' hfound
    obtain rfl : schedule = schedule' := Option.some.inj (hs.symm.trans hs')
    have hbefore : before = done :=
      hserves.done_eq hkeys (Option.some.inj (hcached.symm.trans hcached'))
    have hvalue : value = r.tree.value? found := by
      refine hread.outside (hl.child_lt_size hfound) ?_
      rintro rfl
      exact hne (hl.child?_inj ((ho.child?_eq name).trans hc) hfound).2
    rw [ho.child?_eq] at hfound
    subst hbefore
    split
    · next hdone =>
      refine ⟨hvalue, ?_⟩
      rintro ⟨s, -, hs, hd⟩
      obtain ⟨-, rfl⟩ := hattached.grows.linked.child?_inj hfound hd
      exact hs (List.mem_append_left _ hdone)
    · next hdone =>
      obtain ⟨member', hmember'⟩ := Option.isSome_iff_exists.1 hm'
      obtain ⟨-, hget'⟩ := hraw (Table.mem_names_of_get? ((he m).symm.trans hmember')) hdone hfound
      rw [hvalue, TrackerTree.value?, hget']
      rfl

end Loops

/-- What has been looked up while an entity processes a tracker. -/
theorem process_readings {own : Option String} {e : Entity} (h : Arranged own e)
    (hs : e.Throughout Standard) {id : TrackerId} {r : Run} {k : Tracker}
    (hb : Intake.Bare id r k) :
    Readings e k.value id r (fun _ => False) (e.process id r) := by
  induction h generalizing id r k with
  | @single own n source resolver body hr hb' =>
    have hid := lt_size_of_get? hb.get
    obtain ⟨G, hG, he⟩ := process_local hr
    rw [he]
    have hkeeps := Readings.keeps (.mk n source resolver body) k.value hid
    have hstart := (local_start n).keeps_own (hkeeps []) (.refl hb.linked _ _ id _)
    exact hG.keeps (hkeeps _) (fun F hF r' hr' => keeps_of_single hb' hF (hkeeps []) hr') hstart
  | @array own n source resolver pipeline items hr hi ih =>
    have hid := lt_size_of_get? hb.get
    have hkeeps := Readings.keeps (.mk n source resolver
      (.behaviour pipeline (.array (some items)))) k.value hid
    refine process_inspects hr (registered_of_standard (hs [] _ rfl)) (hkeeps _) hb.get
      (quiet_of_bare hb) (.refl hb.linked _ _ id _) fun r' k' hk' hvalue hr' => ?_
    refine inspectList_keeps (fun f r₂ hf => (hkeeps []).touch hf)
      (fun values hv i v r₂ hi' hr₂ => ?_) hr'
    rw [value?_of_composite hk' hv rfl hvalue] at hr₂ ⊢
    have he : ∀ s, child? (.mk n source resolver (.behaviour pipeline (.array (some items)))) s =
        some items := fun _ => rfl
    exact hr₂.item he rfl hid hi (ih (hs.child (he (toString i)))) hi'
  | @object own n source resolver pipeline members schedule policy escaping hr ha hm ih =>
    have hid := lt_size_of_get? hb.get
    have hkeeps := Readings.keeps (.mk n source resolver
      (.behaviour pipeline (.object members schedule policy escaping))) k.value hid
    refine process_inspects hr (registered_of_standard (hs [] _ rfl)) (hkeeps _) hb.get
      (quiet_of_bare hb) (.refl hb.linked _ _ id _) fun r' k' hk' hvalue hr' => ?_
    refine inspectObject_keeps (fun f r₂ hf => (hkeeps []).touch hf)
      (fun r₂ hr₂ => ⟨hr₂.advances.grows.linked, hr₂.advances.lt hid⟩)
      (fun input hv r₂ r₁ hr₂ hattached htrace => ?_) hr'
    rw [value?_of_composite hk' hv rfl hvalue] at hr₂ ⊢
    obtain ⟨keys, hcached⟩ := ha.kept
    -- nothing that was there before is pending
    have hstart : Readings (.mk n source resolver
        (.behaviour pipeline (.object members schedule policy escaping)))
        (some (.object input)) id r (Pending id (members.map (·.1)) r₁ []) r₁ := by
      refine hr₂.own hattached.grows ?_ htrace
      rintro z hz ⟨name, hname, -, hc⟩
      obtain ⟨c, hc', hle, -⟩ := hattached.child name hname
      obtain rfl : z = c := Option.some.inj (hc.symm.trans hc')
      exact absurd hz (Nat.not_lt.2 hle)
    obtain ⟨-, hall⟩ := runSchedule_along
      (Q := fun done => Readings _ _ id r (Pending id (members.map (·.1)) r₁ done)) ha hcached
      hattached hr₂.advances.grows.size hstart.advances (fun m hm' => process_advances (hm m hm'))
      (fun hkeys he hc ho hQ => hQ.member (fun _ => rfl) rfl ha hcached hid
        (hm _ (Table.mem_of_get? he)) (ih _ (Table.mem_of_get? he) (hs.child he)) hattached
        hr₂.advances.grows.size hkeys he hc ho) hstart
    exact hall.own (.refl hall.advances.grows.linked id) (fun _ _ hz => hz.elim) rfl

/-- In a run, a member of an object, or what is inside of it, that finds another member reads the
value which that has in the end, if it stands before in the order of the object, and else the part
of the input at its address. -/
theorem run_reads {own : Option String} {e : Entity} (h : Arranged own e)
    (hs : e.Throughout Standard) {object : List String} {schedule : Schedule String}
    {keys : List String} (hobject : (e.at? object).bind schedule? = some schedule)
    (hcached : schedule.cached = some keys) (input : Option Value) {id found : TrackerId}
    {path : Path} {value : Option Value} {n m : String} {below before after : List String}
    (hevent : .lookedUp id path (some found) value ∈ (e.run input).trace) (hne : n ≠ m)
    (hreader : (e.run input).tree.pathOf id = object ++ n :: below)
    (hfound : (e.run input).tree.pathOf found = object ++ [m])
    (hkeys : keys = before ++ n :: after) :
    value = if m ∈ before then (e.run input).tree.value? found
      else input.bind (·.at? (object ++ [m])) := by
  have hbare : Intake.Bare root (.ofValue input) { value := input } :=
    ⟨linked_ofValue input, rfl, rfl, rfl⟩
  obtain ⟨new, htrace, hread⟩ := (process_readings h hs hbare).reads
  have hnew : (e.run input).trace = new := htrace.trans (List.append_nil new)
  have hreading := hread id path found value (hnew ▸ hevent)
  have hid := follow_pathOf h input hreading.reader
  have hfound' := follow_pathOf h input hreading.target
  obtain ⟨inner, -, hinner, -⟩ := run_tracker h input hreading.target
  rw [hreader] at hid
  rw [hfound] at hfound' hinner
  have hsibling := hreading.sibling hne hobject (hkeys ▸ hcached)
    (Option.isSome_iff_exists.2 ⟨inner, hinner⟩) hid hfound'
  split at hsibling
  · next hm =>
    rw [if_pos hm]
    exact hsibling.1
  · next hm =>
    rw [if_neg hm]
    exact hsibling

end Run

end Intake
