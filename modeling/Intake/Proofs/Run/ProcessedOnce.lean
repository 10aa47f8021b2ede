import Intake.Proofs.Entity.Numbered
import Intake.Proofs.Entity.Shape
import Intake.Proofs.Run.Begun
import Intake.Proofs.Run.FailingChildren
/-!
# Everything is processed once

The main result, for every chain that compiles and every input: each tracker of the final tree is
reached from the root by its address, belongs to the entity of that address, has the children that
its chain declares or none, and its entity has begun on it exactly once.  Scheduling never fails,
and nothing happens outside of the tree.

`Census root id r₀ P l r` follows the work at the tracker `id` from `r₀` on.  The entities in `l`
have begun on `id`; on each new tracker that of its address has begun once, but for those in `P`,
which have been attached and on which none has.  The steps of the work keep it:

- work at the tracker in which no entity begins (`Census.calm`) and the beginning of one
  (`Census.start`),
- attaching children (`Census.attach`),
- and processing one of them (`Census.child`).
-/

namespace Intake

namespace Run

open Entity

/-! ## Who has begun -/

structure Census (root : Entity) (id : TrackerId) (r₀ : Run) (P : TrackerId → Prop)
    (l : List Nat) (r : Run) : Prop where
  advances : Advances id r₀ r
  orderly : Orderly r
  own : r.begunOn id = l
  once : ∀ {x}, r₀.tree.size ≤ x → x < r.tree.size → ¬ P x →
    ∃ inner, root.at? (r.tree.pathOf x) = some inner ∧ inner.Once (r.begunOn x)
  pending : ∀ {x}, P x → r₀.tree.size ≤ x ∧ x < r.tree.size ∧ r.begunOn x = []

/-- Where the entity `e` may begin: at its address in the tree that `root` makes, on a tracker on
which no entity has begun. -/
structure Awaits (root e : Entity) (id : TrackerId) (r : Run) : Prop where
  linked : r.tree.Linked
  lt : id < r.tree.size
  orderly : Orderly r
  entity : root.at? (r.tree.pathOf id) = some e
  fresh : r.begunOn id = []

namespace Census

variable {root e : Entity} {P : TrackerId → Prop} {id c : TrackerId} {l l' : List Nat}
  {r₀ r r' : Run}

theorem refl (h : Awaits root e id r₀) : Census root id r₀ (fun _ => False) [] r₀ :=
  ⟨.refl h.linked id, h.orderly, h.fresh, fun hle hlt => absurd hlt (Nat.not_lt.2 hle),
    fun hx => hx.elim⟩

theorem congr {Q : TrackerId → Prop} (h : Census root id r₀ P l r) (hPQ : ∀ x, P x ↔ Q x) :
    Census root id r₀ Q l r := by
  have : P = Q := funext fun x => propext (hPQ x)
  exact this ▸ h

/-- A step on the tracker itself. -/
theorem here (h : Census root id r₀ P l r) (hid : id < r₀.tree.size) (ha : Advances id r r')
    (horderly : Orderly r') (hsize : r'.tree.size = r.tree.size) (hown : r'.begunOn id = l') :
    Census root id r₀ P l' r' := by
  have hl := h.advances.grows.linked
  have hne : ∀ {x}, r₀.tree.size ≤ x → x ≠ id := fun hle =>
    Nat.ne_of_gt (Nat.lt_of_lt_of_le hid hle)
  refine ⟨h.advances.trans ha (.inl rfl), horderly, hown, fun hle hlt hx => ?_, fun hx => ?_⟩
  · rw [hsize] at hlt
    rw [ha.grows.pathOf_eq hl hlt, ha.begunOn_eq hlt (hne hle)]
    exact h.once hle hlt hx
  · obtain ⟨hle, hlt, hnone⟩ := h.pending hx
    exact ⟨hle, hsize ▸ hlt, (ha.begunOn_eq hlt (hne hle)).trans hnone⟩

/-- An entity begins. -/
theorem start (h : Census root id r₀ P l r) (hid : id < r₀.tree.size) (n : Nat) :
    Census root id r₀ P (n :: l) (start n id r) := by
  have hclaimed : Orderly (r.mapTree (·.update id (·.claim n))) :=
    h.orderly.grow (TrackerTree.size_update _ _).ge rfl
  have hlt : id < (r.mapTree (·.update id (·.claim n))).tree.size := by
    show id < (r.tree.update id (·.claim n)).size
    rw [TrackerTree.size_update]
    exact h.advances.lt hid
  refine h.here hid (advances_start h.advances.grows.linked n)
    (hclaimed.note (fun x hx => List.mem_singleton.1 hx ▸ hlt) ⟨n, List.mem_cons_self⟩)
    (TrackerTree.size_update _ _) ?_
  rw [begunOn_start, h.own]

theorem exists_began (h : Census root id r₀ P l r) (hl : l ≠ []) :
    ∃ n, Event.began n id ∈ r.trace := by
  obtain ⟨n, hn⟩ := List.exists_mem_of_ne_nil l hl
  exact ⟨n, mem_begunOn.1 (h.own ▸ hn)⟩

theorem calm (hid : id < r₀.tree.size) (hl : l ≠ []) : Calm id (Census root id r₀ P l) where
  touch {f r} hf h := h.here hid (.touch h.advances.grows.linked id hf)
    (h.orderly.grow (TrackerTree.size_update _ _).ge rfl) (TrackerTree.size_update _ _) h.own
  note {event r} he hlookUp hnone h := by
    obtain ⟨n, hn⟩ := h.exists_began hl
    have hwithin : ∀ x ∈ event.trackers, x < r.tree.size := by
      rw [Event.trackers_of_isLookUp hlookUp, List.forall_mem_singleton, he]
      exact h.advances.lt hid
    refine h.here hid (.note h.advances.grows.linked he)
      (h.orderly.note hwithin ⟨n, List.mem_cons_of_mem _ (he ▸ hn)⟩) rfl ?_
    rw [begunOn_note, hnone]
    exact h.own
  tally {r r'} htree htrace h := by
    have hsize : r'.tree.size = r.tree.size := by rw [htree]
    have hgrows : TrackerTree.Grows id r.tree r'.tree := htree ▸ .refl h.advances.grows.linked id
    exact h.here hid (.of_grows hgrows htrace) (h.orderly.grow hsize.ge htrace) hsize
      ((begunOn_of_trace htrace id).trans h.own)
  lookUp {r} path h := by
    have hlt := h.advances.lt hid
    obtain ⟨n, hn⟩ := h.exists_began hl
    have hwithin : ∀ x ∈ id :: (r.tree.locateFrom id path).toList, x < r.tree.size := by
      refine List.forall_mem_cons.2 ⟨hlt, fun x hx => ?_⟩
      exact h.advances.grows.linked.locateFrom_lt hlt (Option.mem_toList.1 hx)
    exact h.here hid (.note h.advances.grows.linked rfl)
      (h.orderly.note hwithin ⟨n, List.mem_cons_of_mem _ hn⟩) rfl h.own

/-- On what has been attached no entity has begun. -/
theorem attach (h : Census root id r₀ (fun _ => False) l r)
    (hg : TrackerTree.Grows id r.tree r'.tree) (htrace : r'.trace = r.trace)
    (hP : ∀ x, P x ↔ r.tree.size ≤ x ∧ x < r'.tree.size) : Census root id r₀ P l r' := by
  have ha : Advances id r r' := .of_grows hg htrace
  refine ⟨h.advances.trans ha (.inl rfl), h.orderly.grow hg.size htrace,
    (begunOn_of_trace htrace id).trans h.own, fun {x} hle hlt hx => ?_, fun {x} hx => ?_⟩
  · have hxr : x < r.tree.size := Nat.not_le.1 fun hxr => hx ((hP x).2 ⟨hxr, hlt⟩)
    rw [hg.pathOf_eq h.advances.grows.linked hxr, begunOn_of_trace htrace]
    exact h.once hle hxr not_false
  · obtain ⟨hle, hlt⟩ := (hP x).1 hx
    refine ⟨Nat.le_trans h.advances.grows.size hle, hlt, ?_⟩
    rw [begunOn_of_trace htrace]
    exact h.orderly.begunOn_eq_nil hle

/-- A pending tracker awaits the entity of its address. -/
theorem awaits {inner : Entity} {s : String} (h : Census root id r₀ P l r)
    (h₀ : Awaits root e id r₀) (hc : P c) (hchild : r.tree.child? id s = some c)
    (he : e.child? s = some inner) : Awaits root inner c r := by
  have hl := h.advances.grows.linked
  obtain ⟨-, hlt, hnone⟩ := h.pending hc
  refine ⟨hl, hlt, h.orderly, ?_, hnone⟩
  rw [hl.pathOf_child hchild, h.advances.grows.pathOf_eq h₀.linked h₀.lt, at?_append h₀.entity, he]

/-- After a pending tracker has been processed, its entity has begun on it once, and so for all
that is new. -/
theorem child {inner : Entity} (h : Census root id r₀ P l r) (hid : id < r₀.tree.size)
    (hc : P c) (hinner : Awaits root inner c r) (h' : Census root c r (fun _ => False) l' r')
    (honce : inner.Once l') : Census root id r₀ (fun x => P x ∧ x ≠ c) l r' := by
  have ha := h'.advances
  have hl := h.advances.grows.linked
  obtain ⟨hold, hlt, -⟩ := h.pending hc
  refine ⟨h.advances.trans ha (.inr hold), h'.orderly, ?_, fun {x} hle hx hnot => ?_,
    fun {x} hx => ?_⟩
  · have hidc : id ≠ c := Nat.ne_of_lt (Nat.lt_of_lt_of_le hid hold)
    exact (ha.begunOn_eq (h.advances.lt hid) hidc).trans h.own
  · -- the child itself, what was there before it was processed, and what is new below it
    by_cases hxc : x = c
    · subst hxc
      refine ⟨inner, ?_, h'.own ▸ honce⟩
      rw [ha.grows.pathOf_eq hl hlt]
      exact hinner.entity
    · by_cases hxr : x < r.tree.size
      · rw [ha.grows.pathOf_eq hl hxr, ha.begunOn_eq hxr hxc]
        exact h.once hle hxr fun hPx => hnot ⟨hPx, hxc⟩
      · exact h'.once (Nat.not_lt.1 hxr) hx not_false
  · obtain ⟨hle, hxr, hnone⟩ := h.pending hx.1
    exact ⟨hle, ha.lt hxr, (ha.begunOn_eq hxr hx.2).trans hnone⟩

end Census

/-! ## Processing -/

/-- Where it may begin, the entity begins once, and so do all that it processes children with. -/
def RunsOnce (root e : Entity) : Prop :=
  ∀ id r, Awaits root e id r →
    ∃ l, e.Once l ∧ Census root id r (fun _ => False) l (e.process id r)

section Loops

variable {root e inner : Entity} {id c : TrackerId} {l : List Nat} {r₀ r₁ r : Run}

/-- One item of a list. -/
theorem Census.item (hr : Census root id r₀ (fun _ => False) l r) (h₀ : Awaits root e id r₀)
    (ih : RunsOnce root inner) (i : Nat) (v : Value) (he : e.child? (toString i) = some inner) :
    Census root id r₀ (fun _ => False) l
      (inner.process r.tree.size
        { r with tree := (r.tree.attach id (toString i) (some v)).2 }) := by
  have hid := hr.advances.lt h₀.lt
  have hc := TrackerTree.child?_attach hid (toString i) (some v) (toString i)
  have hgrows := TrackerTree.Grows.attach hr.advances.grows.linked hid (toString i) (some v)
  rw [if_pos rfl] at hc
  have hattached : Census root id r₀ (fun x => x = r.tree.size) l
      { r with tree := (r.tree.attach id (toString i) (some v)).2 } := by
    refine hr.attach hgrows rfl fun x => ?_
    rw [TrackerTree.size_attach]
    exact ⟨fun he => ⟨he.ge, he ▸ Nat.lt_succ_self _⟩,
      fun hx => Nat.le_antisymm (Nat.le_of_lt_succ hx.2) hx.1⟩
  have hawaits := hattached.awaits h₀ rfl hc he
  obtain ⟨l', honce, hrun⟩ := ih _ _ hawaits
  exact (hattached.child h₀.lt rfl hawaits hrun honce).congr fun x => by simp

/-- One member of an object. -/
theorem Census.member {names done : List String} {name : String}
    (hr : Census root id r₀ (Pending id names r₁ done) l r) (h₀ : Awaits root e id r₀)
    (ih : RunsOnce root inner) (he : e.child? name = some inner) (hname : name ∈ names)
    (hnext : name ∉ done) (hl : r₁.tree.Linked) (hc : r₁.tree.child? id name = some c)
    (ho : Ongoing id r₀ r₁ done r) :
    Census root id r₀ (Pending id names r₁ (done ++ [name])) l (inner.process c r) := by
  have hpending : Pending id names r₁ done c := ⟨name, hname, hnext, hc⟩
  have hawaits := hr.awaits h₀ hpending ((ho.child?_eq name).trans hc) he
  obtain ⟨l', honce, hrun⟩ := ih _ _ hawaits
  exact (hr.child h₀.lt hpending hawaits hrun honce).congr fun x => pending_append_iff hl hc

end Loops

/-- An entity runs once if the inspection of its kind keeps count. -/
theorem RunsOnce.of_inspect {root : Entity} {n : Nat} {source : Chain} {resolver : Option Entity}
    {body : Body} (hr : Resolves source.props.default? resolver)
    (hinspect : ∀ F, Inspects body F → ∀ id r₀, Awaits root (.mk n source resolver body) id r₀ →
      ∀ l ≠ [], ∀ r, Census root id r₀ (fun _ => False) l r →
        Census root id r₀ (fun _ => False) l (F id r)) :
    RunsOnce root (.mk n source resolver body) :=
  fun id r₀ h₀ => process_once hr (fun _ hl => Census.calm h₀.lt hl)
    (fun n _ _ hr => hr.start h₀.lt n) (fun F hF => hinspect F hF id r₀ h₀) (.refl h₀)

theorem process_runsOnce {root e : Entity} {own : Option String} (h : Arranged own e) :
    RunsOnce root e := by
  induction h with
  | single hr hb =>
    exact .of_inspect hr fun F hF id r₀ h₀ l hl r hr' => (Census.calm h₀.lt hl).routine.inspect hb hF hr'
  | array hr hi ih =>
    refine .of_inspect hr fun F hF id r₀ h₀ l hl r hr' => ?_
    obtain ⟨pipeline, hooks, heq, rfl⟩ := hF
    cases heq
    exact inspectList_keeps (fun f r₂ hf => (Census.calm h₀.lt hl).touch hf)
      (fun _ _ i v r₂ _ hr₂ => hr₂.item h₀ ih i v rfl) hr'
  | @object own n source resolver pipeline members schedule policy escaping hr ha hm ih =>
    refine .of_inspect hr fun F hF id r₀ h₀ l hl r hr' => ?_
    obtain ⟨pipeline, hooks, heq, rfl⟩ := hF
    cases heq
    refine inspectObject_keeps (fun f r₂ hf => (Census.calm h₀.lt hl).touch hf)
      (fun r₂ hr₂ => ⟨hr₂.advances.grows.linked, hr₂.advances.lt h₀.lt⟩) ?_ hr'
    intro input _ r₂ r₁ hr₂ hattached htrace
    have hnames : (members.map (·.1)).Nodup := ha.nodup_members
    have hstart : Census root id r₀ (Pending id (members.map (·.1)) r₁ []) l r₁ := by
      refine hr₂.attach hattached.grows htrace fun x => ⟨?_, fun hx => ?_⟩
      · rintro ⟨name, hname, hn, hc⟩
        have hlt := hattached.grows.linked.child_lt_size hc
        exact ⟨(hattached.pending_iff hnames hlt).1 ⟨name, hname, hn, hc⟩, hlt⟩
      · exact (hattached.pending_iff hnames hx.2).2 hx.1
    obtain ⟨done, hdone, -, hcensus⟩ := runSchedule_ongoing
      (Q := fun done => Census root id r₀ (Pending id (members.map (·.1)) r₁ done) l) ha hattached
      hr₂.advances.grows.size hstart.advances
      (fun m hm' {c r} hl hlt => process_advances (hm m hm') hl hlt)
      (fun {done name e c r} hnext _ he hc hongoing hcensus => by
        have hname : name ∈ members.map (·.1) := Table.mem_names_of_get? he
        exact hcensus.member h₀ (ih _ (Table.mem_of_get? he)) he hname hnext
          hattached.grows.linked hc hongoing)
      hstart
    refine hcensus.congr fun x => iff_of_false ?_ not_false
    rintro ⟨name, hname, hn, -⟩
    exact hn ((hdone name).2 hname)

/-! ## The main result -/

/-- An entity begins at the root of a fresh tree. -/
theorem awaits_ofValue (e : Entity) (input : Option Value) :
    Awaits e e TrackerTree.root (.ofValue input) where
  linked := TrackerTree.linked_ofValue input
  lt := Nat.one_pos
  orderly := ⟨List.forall_mem_nil _, fun hsplit => by simp [ofValue] at hsplit⟩
  entity := congrArg e.at? (pathOf_ofValue input)
  fresh := rfl

/-- On each tracker of a run the entity of its address has begun once, and nothing has happened
outside of the tree. -/
theorem run_once {own : Option String} {e : Entity} (h : Arranged own e) (input : Option Value) :
    (e.run input).Orderly ∧ ∀ id < (e.run input).tree.size, ∃ inner,
      e.at? ((e.run input).tree.pathOf id) = some inner ∧ inner.Once ((e.run input).begunOn id) := by
  obtain ⟨l, honce, hcensus⟩ := process_runsOnce h _ _ (awaits_ofValue e input)
  refine ⟨hcensus.orderly, fun id hid => ?_⟩
  rcases Nat.eq_zero_or_pos id with rfl | hpos
  · obtain ⟨-, -, hroot, -⟩ := run_told h input
    exact ⟨e, congrArg e.at? hroot, hcensus.own ▸ honce⟩
  · exact hcensus.once hpos hid not_false

/-- The tracker `id`, which holds `k`, has been processed by the entity `inner` of its address: it
is reached from the root, belongs to that entity and has the children that its chain declares or
none, and the entity has begun on it once, with no other but the resolver of its default. -/
structure Processed (c : Chain) (e : Entity) (r : Run) (id : TrackerId) (k : Tracker)
    (inner : Entity) : Prop where
  reached : r.tree.follow TrackerTree.root (r.tree.pathOf id) = some id
  entity : e.at? (r.tree.pathOf id) = some inner
  chain : c.at? (r.tree.pathOf id) = some inner.source
  owner : k.entity = some inner.id
  shaped : k.Shaped inner.source.kind.Admits inner.source.pipeline
  begun : inner.Once (r.begunOn id)
  once : (r.begunOn id).count inner.id = 1

/-- Whatever compiles and whatever the input, every tracker of the final tree has been processed
once, by the entity of its address, whose number it has; so the tracker was there when the entity
began, since it cannot be claimed otherwise.  Parents and children are trackers of the tree, all
that has happened involves such trackers after an entity began on them, and every object's schedule
can be executed, whatever is applied. -/
theorem processed_once {c : Chain} {e : Entity} (h : Mapper.standard.compile c = .ok e)
    (input : Option Value) :
    (∀ id k, (e.run input).tree.get? id = some k →
      ∃ inner, Processed c e (e.run input) id k inner) ∧
    (e.run input).tree.Linked ∧ (e.run input).Orderly ∧
    ∀ address inner schedule, e.at? address = some inner → inner.schedule? = some schedule →
      ∀ {γ : Type} (apply : String → γ → γ) (context : γ),
        ∃ out, schedule.execute apply context = .ok out := by
  have harranged := Mapper.compile_arranged h
  obtain ⟨hsource, hfits⟩ := Mapper.compile_fits h
  obtain ⟨hl, -⟩ := run_told harranged input
  obtain ⟨horderly, hall⟩ := run_once harranged input
  refine ⟨fun id k hk => ?_, hl, horderly, fun address inner schedule hinner hs => ?_⟩
  · have hid := TrackerTree.lt_size_of_get? hk
    obtain ⟨inner, hinner, honce⟩ := hall id hid
    obtain ⟨inner', k₀, hinner', hk₀, htold, -⟩ := run_tracker harranged input hid
    obtain rfl := Option.some.inj (hinner.symm.trans hinner')
    obtain ⟨raw, made⟩ := htold.makes hk
    exact ⟨inner, follow_pathOf harranged input hid, hinner, hsource ▸ hfits.source_at? hinner,
      htold.owner hk₀ hk, made.shaped (hfits _ _ hinner) hk₀, honce,
      honce.count (Mapper.compile_numbered h _ _ hinner)⟩
  · obtain ⟨own, hinner⟩ := harranged.at? hinner
    obtain ⟨_, _, _, _, -, ha, -⟩ := hinner.of_schedule? hs
    exact ha.execute

theorem processed_once_scores :
    Mapper.standard.compile scoring = .ok scorer ∧
    ∃ k, (scorer.run scores).tree.get? 1 = some k ∧ k.entity = some 1 ∧
      ((scorer.run scores).begunOn 1).count 1 = 1 ∧
      Kind.Admits (.array (some scoreSchema.number.required)) (Table.names k.children) := by
  obtain ⟨hall, -⟩ := processed_once compile_scoring scores
  have hsize : (scorer.run scores).tree.size = 4 := by decide +kernel
  have hlist : (scorer.run scores).tree.pathOf 1 = ["scores"] := by decide +kernel
  obtain ⟨k, hk⟩ := TrackerTree.exists_get? (show 1 < (scorer.run scores).tree.size by omega)
  obtain ⟨inner, hprocessed⟩ := hall 1 k hk
  have hinner := hprocessed.entity
  rw [hlist] at hinner
  obtain rfl := Option.some.inj hinner
  exact ⟨compile_scoring, k, hk, hprocessed.owner, hprocessed.once, hprocessed.shaped.children⟩

end Run

end Intake
