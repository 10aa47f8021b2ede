import Intake.Proofs.Run.Growth
/-!
# Settled reads

A look-up is settled if the tracker that it found is the one it was made for, or was reached
through a list around it, or was finished: an entity had begun on it before, nothing happens to
it afterwards, and the value read is the value that it keeps.

`Progress e F id r₀ P r` follows the work at the tracker `id` from `r₀` on.  `F` are the trackers
that were finished then, `P` those that have been attached since and are still to be processed;
everything else that is new is finished too.  The steps of the work keep it:

- a part of a local stage (`Progress.keeps`), where the look-ups lead as `Lands` says,
- attaching children (`Progress.attach`),
- and processing one of them (`Progress.child`).
-/

namespace Intake

namespace Entity

/-- The entity that processes a child of an object, or the items of a list. -/
def child? (e : Entity) (segment : String) : Option Entity :=
  match e.body with
  | .behaviour _ (.object members _ _ _) => Table.get? members segment
  | .behaviour _ (.array items) => items
  | _ => none

/-- The entity that processes the tracker at an address. -/
def at? (e : Entity) : List String → Option Entity
  | [] => some e
  | segment :: rest => (e.child? segment).bind (·.at? rest)

def isList (e : Entity) : Bool :=
  match e.body with
  | .behaviour _ (.array _) => true
  | _ => false

theorem at?_singleton (e : Entity) (segment : String) : e.at? [segment] = e.child? segment := by
  rw [at?]
  cases e.child? segment <;> rfl

theorem at?_append {e : Entity} {address : List String} {inner : Entity}
    (h : e.at? address = some inner) (segment : String) :
    e.at? (address ++ [segment]) = inner.child? segment := by
  induction address generalizing e with
  | nil =>
    obtain rfl := Option.some.inj h
    cases hc : e.child? segment <;> simp [at?, hc]
  | cons s rest ih =>
    rw [at?, Option.bind_eq_some_iff] at h
    obtain ⟨next, hnext, h⟩ := h
    rw [List.cons_append, at?, hnext]
    exact ih h

theorem child?_of_single {n : Nat} {source : Chain} {resolver : Option Entity} {body : Body}
    (h : Single body) (s : String) : (mk n source resolver body).child? s = none := by
  cases body with
  | base => rfl
  | reference path pipeline => rfl
  | behaviour pipeline hooks =>
    cases hooks with
    | array items =>
      cases items with
      | none => rfl
      | some items => exact h.elim
    | object members schedule policy escaping => exact h.elim
    | _ => rfl

theorem Arranged.child {own : Option String} {e member : Entity} {s : String} (h : Arranged own e)
    (hm : e.child? s = some member) : ∃ own', Arranged own' member := by
  cases h with
  | single hr hb => exact absurd ((child?_of_single hb s).symm.trans hm) nofun
  | array hr hi => exact ⟨none, Option.some.inj hm ▸ hi⟩
  | object hr hs hmembers => exact ⟨some s, hmembers _ (Table.mem_of_get? hm)⟩

theorem Arranged.at? {own : Option String} {e inner : Entity} {address : List String}
    (h : Arranged own e) (hi : e.at? address = some inner) : ∃ own', Arranged own' inner := by
  induction address generalizing own e with
  | nil => exact ⟨own, Option.some.inj hi ▸ h⟩
  | cons s rest ih =>
    rw [Entity.at?, Option.bind_eq_some_iff] at hi
    obtain ⟨member, hm, hi⟩ := hi
    obtain ⟨own', h⟩ := h.child hm
    exact ih h hi

end Entity

namespace Run

/-- A tracker is a list in the tree that `e` makes. -/
def Lists (e : Entity) (t : TrackerTree) (id : TrackerId) : Prop :=
  ∃ a, e.at? (t.pathOf id) = some a ∧ a.isList = true

/-- A look-up for `id` that led to `found` entered through a list around `id`: the first segment
was one of the list's indexes, or its own name. -/
def EntersList (e : Entity) (t : TrackerTree) (id : TrackerId) (path : Path)
    (found : TrackerId) : Prop :=
  ∃ list ∈ t.enclosing id, Lists e t list ∧
    (t.pathOf found = t.pathOf list ++ path.segments ∨
      ∃ first rest, path.segments = first :: rest ∧ (t.pathOf list).getLast? = some first ∧
        t.pathOf found = t.pathOf list ++ rest)

/-- What was read was final. -/
structure Final (F : TrackerId → Prop) (r : Run) (later earlier : List Event)
    (found : TrackerId) (value : Option Value) : Prop where
  finished : F found
  value : value = r.tree.value? found
  begun : ∃ k, Event.began k found ∈ earlier
  silent : ∀ event ∈ later, event.tracker ≠ found

/-- The look-ups between `r₀` and `r` are settled, with `F` finished at the end. -/
def Settled (e : Entity) (F : TrackerId → Prop) (r₀ r : Run) : Prop :=
  ∀ later id path found value earlier,
    r.trace = later ++ .lookedUp id path (some found) value :: earlier →
    r₀.trace.length ≤ earlier.length →
    id < r.tree.size ∧ found < r.tree.size ∧
      (found = id ∨ EntersList e r.tree id path found ∨ Final F r later earlier found value)

section Stable

variable {e : Entity} {id : TrackerId} {r r' : Run}

theorem Lists.advance {x : TrackerId} (h : Lists e r.tree x) (ha : Advances id r r')
    (hl : r.tree.Linked) (hx : x < r.tree.size) : Lists e r'.tree x := by
  unfold Lists
  rwa [ha.grows.pathOf_eq hl hx]

theorem EntersList.advance {x found : TrackerId} {path : Path}
    (h : EntersList e r.tree x path found) (ha : Advances id r r') (hl : r.tree.Linked)
    (hx : x < r.tree.size) (hfound : found < r.tree.size) :
    EntersList e r'.tree x path found := by
  obtain ⟨list, hmem, hlists, hpath⟩ := h
  have hlt : list < r.tree.size := Nat.lt_trans (hl.enclosing_lt hmem) hx
  refine ⟨list, ?_, hlists.advance ha hl hlt, ?_⟩
  · rwa [ha.grows.enclosing_eq hl hx]
  · rwa [ha.grows.pathOf_eq hl hlt, ha.grows.pathOf_eq hl hfound]

end Stable

/-! ## Traces -/

/-- An event of a trace that has grown is a new one, or one that was there. -/
theorem trace_split {new old later earlier : List Event} {event : Event}
    (h : new ++ old = later ++ event :: earlier) :
    (old.length ≤ earlier.length ∧ ∃ mid, new = later ++ event :: mid ∧ earlier = mid ++ old) ∨
      (earlier.length < old.length ∧ ∃ mid, old = mid ++ event :: earlier ∧
        later = new ++ mid) := by
  rcases List.append_eq_append_iff.1 h with ⟨mid, hlater, hold⟩ | ⟨mid, hnew, hearlier⟩
  · refine .inr ⟨?_, mid, hold, hlater⟩
    rw [hold, List.length_append, List.length_cons]
    omega
  · cases mid with
    | nil =>
      refine .inr ⟨?_, [], by simpa using hearlier.symm, by simpa using hnew.symm⟩
      rw [← (show event :: earlier = old by simpa using hearlier)]
      simp
    | cons first mid =>
      obtain ⟨rfl, rfl⟩ := List.cons.inj hearlier
      exact .inl ⟨by simp, mid, hnew, rfl⟩

namespace Settled

variable {e : Entity} {F G : TrackerId → Prop} {id : TrackerId} {r₀ r r' : Run}

/-- Without a new look-up there is nothing to settle. -/
theorem of_new (new : List Event) (h : r'.trace = new ++ r.trace)
    (hnew : ∀ event ∈ new, event.isLookUp = false) : Settled e F r r' := by
  intro later x path found value earlier htrace hlen
  rw [h] at htrace
  rcases trace_split htrace with ⟨-, mid, hmid, -⟩ | ⟨hlt, -⟩
  · have := hnew (.lookedUp x path (some found) value) (by simp [hmid])
    cases this
  · exact absurd hlen (Nat.not_le.2 hlt)

theorem mono (h : Settled e F r₀ r) (hFG : ∀ x < r.tree.size, F x → G x) :
    Settled e G r₀ r := by
  intro later x path found value earlier htrace hlen
  obtain ⟨hx, hfound, hread⟩ := h later x path found value earlier htrace hlen
  refine ⟨hx, hfound, ?_⟩
  rcases hread with hread | hread | hread
  · exact .inl hread
  · exact .inr (.inl hread)
  · exact .inr (.inr ⟨hFG found hfound hread.finished, hread.value, hread.begun, hread.silent⟩)

/-- What was settled stays so while work goes on at a tracker that was not finished. -/
theorem trans (h : Settled e F r₀ r) (hl : r.tree.Linked) (ha : Advances id r r')
    (hFG : ∀ x < r.tree.size, F x → G x ∧ x ≠ id) (h' : Settled e G r r') :
    Settled e G r₀ r' := by
  intro later x path found value earlier htrace hlen
  obtain ⟨new, hnew, habout⟩ := ha.trace
  rw [hnew] at htrace
  rcases trace_split htrace with ⟨hlen', -⟩ | ⟨-, mid, hmid, hlater⟩
  · exact h' later x path found value earlier (hnew.trans htrace) hlen'
  · obtain ⟨hx, hfound, hread⟩ := h mid x path found value earlier hmid hlen
    refine ⟨ha.lt hx, ha.lt hfound, ?_⟩
    rcases hread with hread | hread | hread
    · exact .inl hread
    · exact .inr (.inl (hread.advance ha hl hx hfound))
    · obtain ⟨hG, hne⟩ := hFG found hfound hread.finished
      refine .inr (.inr ⟨hG, ?_, hread.begun, ?_⟩)
      · rw [hread.value]
        unfold TrackerTree.value?
        rw [ha.grows.frame hfound hne]
      · intro event hevent
        rw [hlater] at hevent
        rcases List.mem_append.1 hevent with hevent | hevent
        · rintro rfl
          rcases habout event hevent with he | he
          · exact hne he
          · exact absurd hfound (Nat.not_lt.2 he)
        · exact hread.silent event hevent

end Settled

/-! ## Progress -/

/-- What is finished when the work that began in `r₀` has come to `r`: what was finished before,
and what is new but for the trackers in `P`. -/
def Done (F : TrackerId → Prop) (r₀ r : Run) (P : TrackerId → Prop) (x : TrackerId) : Prop :=
  F x ∨ r₀.tree.size ≤ x ∧ x < r.tree.size ∧ ¬ P x

/-- Where the work at the tracker `id` begins, with `F` finished. -/
structure Site (F : TrackerId → Prop) (id : TrackerId) (r₀ : Run) : Prop where
  linked : r₀.tree.Linked
  lt : id < r₀.tree.size
  bare : ∀ s, r₀.tree.child? id s = none
  fresh : ¬ F id
  bound : ∀ {x}, F x → x < r₀.tree.size
  closed : ∀ {x c s}, F x → r₀.tree.child? x s = some c → F c
  begun : ∀ {x}, F x → ∃ k, Event.began k x ∈ r₀.trace

structure Progress (e : Entity) (F : TrackerId → Prop) (id : TrackerId) (r₀ : Run)
    (P : TrackerId → Prop) (r : Run) : Prop where
  advances : Advances id r₀ r
  settled : Settled e (Done F r₀ r P) r₀ r
  begun : ∀ {x}, r₀.tree.size ≤ x → x < r.tree.size → ¬ P x → ∃ k, Event.began k x ∈ r.trace

/-- Where a look-up for `id` leads: it enters at a list, or comes to a list around `id`, to `id`
itself, to a finished tracker, or to a finished child of the tracker that the first segment
names. -/
def Lands (e : Entity) (F : TrackerId → Prop) (t : TrackerTree) (id : TrackerId)
    (path : Path) : Prop :=
  ∀ first rest entry c, path.segments = first :: rest → t.entry? id first = some entry →
    t.child? entry first = some c →
    Lists e t entry ∨ c ∈ t.enclosing id ∧ Lists e t c ∨ c = id ∨ F c ∨
      ∃ second rest', rest = second :: rest' ∧ ∀ d, t.child? c second = some d → F d

theorem Advances.began_mem {id x : TrackerId} {r r' : Run} (h : Advances id r r')
    (hx : ∃ k, Event.began k x ∈ r.trace) : ∃ k, Event.began k x ∈ r'.trace := by
  obtain ⟨new, hnew, -⟩ := h.trace
  obtain ⟨k, hk⟩ := hx
  exact ⟨k, hnew ▸ List.mem_append_right _ hk⟩

namespace Progress

variable {e : Entity} {F P : TrackerId → Prop} {id : TrackerId} {r₀ r r' : Run}

theorem refl (h : Site F id r₀) : Progress e F id r₀ (fun _ => False) r₀ :=
  ⟨.refl h.linked id, .of_new [] rfl (by simp),
    fun hle hlt => absurd hlt (Nat.not_lt.2 hle)⟩

theorem congr {Q : TrackerId → Prop} (h : Progress e F id r₀ P r) (hPQ : ∀ x, P x ↔ Q x) :
    Progress e F id r₀ Q r := by
  have : P = Q := funext fun x => propext (hPQ x)
  exact this ▸ h

/-- A step on the tracker itself. -/
theorem own (h : Progress e F id r₀ P r) (hs : Site F id r₀) (ha : Advances id r r')
    (hsize : r'.tree.size = r.tree.size) (h' : Settled e (Done F r₀ r P) r r') :
    Progress e F id r₀ P r' := by
  have hdone : Done F r₀ r' P = Done F r₀ r P := by
    funext x
    simp [Done, hsize]
  refine ⟨h.advances.trans ha (.inl rfl), ?_, fun hle hlt hP => ?_⟩
  · rw [hdone]
    refine h.settled.trans h.advances.grows.linked ha (fun x _ hx => ⟨hx, ?_⟩) h'
    rintro rfl
    rcases hx with hx | ⟨hle, -, -⟩
    · exact hs.fresh hx
    · exact absurd hs.lt (Nat.not_lt.2 hle)
  · exact ha.began_mem (h.begun hle (hsize ▸ hlt) hP)

/-- Attaching makes what is new pending. -/
theorem attach (h : Progress e F id r₀ (fun _ => False) r) (hs : Site F id r₀)
    (hg : TrackerTree.Grows id r.tree r'.tree) (htrace : r'.trace = r.trace)
    (hP : ∀ x < r'.tree.size, P x ↔ r.tree.size ≤ x) : Progress e F id r₀ P r' := by
  have ha : Advances id r r' := .of_grows hg htrace
  refine ⟨h.advances.trans ha (.inl rfl), ?_, fun hle hlt hPx => ?_⟩
  · refine h.settled.trans h.advances.grows.linked ha (fun x hlt hx => ?_)
      (.of_new [] htrace (by simp))
    rcases hx with hx | ⟨hle, -, -⟩
    · exact ⟨.inl hx, fun he => hs.fresh (he ▸ hx)⟩
    · exact ⟨.inr ⟨hle, ha.lt hlt, fun hx => Nat.not_le.2 hlt ((hP x (ha.lt hlt)).1 hx)⟩,
        Nat.ne_of_gt (Nat.lt_of_lt_of_le hs.lt hle)⟩
  · rw [htrace]
    exact h.begun hle (Nat.not_le.1 fun hx => hPx ((hP _ hlt).2 hx)) not_false

/-- Processing a pending tracker finishes it and all that it makes. -/
theorem child {c : TrackerId} (h : Progress e F id r₀ P r) (hs : Site F id r₀)
    (hc : P c) (hold : r₀.tree.size ≤ c) (hP : ∀ x, P x → x < r.tree.size)
    (h' : Progress e (Done F r₀ r P) c r (fun _ => False) r')
    (hbegun : ∃ k, Event.began k c ∈ r'.trace) :
    Progress e F id r₀ (fun x => P x ∧ x ≠ c) r' := by
  have ha := h'.advances
  refine ⟨h.advances.trans ha (.inr hold), ?_, fun {x} hle hlt hx => ?_⟩
  · refine h.settled.trans h.advances.grows.linked ha (fun x hlt hx => ?_) (h'.settled.mono ?_)
    · rcases hx with hx | ⟨hle, -, hPx⟩
      · exact ⟨.inl hx, Nat.ne_of_lt (Nat.lt_of_lt_of_le (hs.bound hx) hold)⟩
      · exact ⟨.inr ⟨hle, ha.lt hlt, fun hx => hPx hx.1⟩, fun he => hPx (he ▸ hc)⟩
    · rintro x hlt ((hx | ⟨hle, hlt', hPx⟩) | ⟨hle, -, -⟩)
      · exact .inl hx
      · exact .inr ⟨hle, hlt, fun hx => hPx hx.1⟩
      · refine .inr ⟨Nat.le_trans h.advances.grows.size hle, hlt, fun hx => ?_⟩
        exact absurd (hP x hx.1) (Nat.not_lt.2 hle)
  · by_cases hxc : x = c
    · exact hxc ▸ hbegun
    · have hPx : ¬ P x := fun hPx => hx ⟨hPx, hxc⟩
      by_cases hxr : x < r.tree.size
      · exact ha.began_mem (h.begun hle hxr hPx)
      · exact h'.begun (Nat.not_lt.1 hxr) hlt not_false

/-- What is below the tracker itself is new. -/
theorem new_below (h : Progress e F id r₀ P r) (hs : Site F id r₀) {x t : TrackerId} {s : String}
    {segments : List String} (hx : r.tree.child? id s = some x)
    (hf : r.tree.follow x segments = some t) : r₀.tree.size ≤ t := by
  have hle : r₀.tree.size ≤ x := by
    rcases h.advances.grows.child?_new hs.lt hx with hx | hx
    · rw [hs.bare] at hx
      cases hx
    · exact hx
  refine TrackerTree.follow_induct (fun {x c s} hle hc => ?_) hle hf
  exact Nat.le_trans hle (Nat.le_of_lt (h.advances.grows.linked.child_lt hc))

/-- What is below a finished tracker is finished. -/
theorem finished_below (h : Progress e F id r₀ P r) (hs : Site F id r₀) {x t : TrackerId}
    {segments : List String} (hx : F x) (hf : r.tree.follow x segments = some t) : F t := by
  refine TrackerTree.follow_induct (P := F) (fun {y c s} hy hc => hs.closed hy (s := s) ?_) hx hf
  have hne : y ≠ id := fun he => hs.fresh (he ▸ hy)
  rwa [h.advances.grows.child?_eq (hs.bound hy) hne] at hc

/-- What a look-up in the course of the work leads to. -/
theorem found (h : Progress e F id r₀ (fun _ => False) r) (hs : Site F id r₀) {path : Path}
    (hp : Lands e F r₀.tree id path) {t : TrackerId}
    (ht : r.tree.locateFrom id path = some t) :
    t < r.tree.size ∧ (t = id ∨ EntersList e r.tree id path t ∨
      Done F r₀ r (fun _ => False) t) := by
  have hl := h.advances.grows.linked
  have hlt : t < r.tree.size := hl.locateFrom_lt (h.advances.lt hs.lt) ht
  rw [TrackerTree.locateFrom_eq, Option.bind_eq_some_iff] at ht
  obtain ⟨first, hfirst, ht⟩ := ht
  rw [Option.bind_eq_some_iff, h.advances.grows.entry?_eq hs.linked hs.lt] at ht
  obtain ⟨entry, hentry, hfollow⟩ := ht
  obtain ⟨rest, hsegments⟩ := Path.segments_of_first? hfirst
  obtain ⟨hmem, c, hc⟩ := TrackerTree.entry?_mem hentry
  have hentry_lt : entry < id := hs.linked.enclosing_lt hmem
  have hc_lt := hs.linked.child_lt_size hc
  have hc' : r.tree.child? entry first = some c :=
    (h.advances.grows.child?_eq (Nat.lt_trans hentry_lt hs.lt) (Nat.ne_of_lt hentry_lt) first).trans
      hc
  have hpath := hl.pathOf_follow hfollow
  rw [hsegments, TrackerTree.follow_cons, hc', Option.bind_some] at hfollow
  refine ⟨hlt, ?_⟩
  have own : c = id → t = id ∨ Done F r₀ r (fun _ => False) t := by
    rintro rfl
    cases rest with
    | nil => exact .inl (by simpa [TrackerTree.follow] using hfollow.symm)
    | cons s rest =>
      rw [TrackerTree.follow_cons, Option.bind_eq_some_iff] at hfollow
      obtain ⟨x, hx, hf⟩ := hfollow
      exact .inr (.inr ⟨h.new_below hs hx hf, hlt, not_false⟩)
  rcases hp first rest entry c hsegments hentry hc with hlists | ⟨hcmem, hlists⟩ | hcid | hcF |
      ⟨second, rest', rfl, hsecond⟩
  · refine .inr (.inl ⟨entry, ?_, ?_, .inl hpath⟩)
    · rwa [h.advances.grows.enclosing_eq hs.linked hs.lt]
    · exact hlists.advance h.advances hs.linked (Nat.lt_trans hentry_lt hs.lt)
  · refine .inr (.inl ⟨c, ?_, ?_, .inr ⟨first, rest, hsegments, ?_, ?_⟩⟩)
    · rwa [h.advances.grows.enclosing_eq hs.linked hs.lt]
    · exact hlists.advance h.advances hs.linked hc_lt
    · rw [hl.pathOf_child hc']
      simp
    · rw [hpath, hl.pathOf_child hc', hsegments]
      simp
  · exact (own hcid).imp_right .inr
  · exact .inr (.inr (.inl (h.finished_below hs hcF hfollow)))
  · by_cases hcid : c = id
    · exact (own hcid).imp_right .inr
    · rw [TrackerTree.follow_cons, Option.bind_eq_some_iff] at hfollow
      obtain ⟨d, hd, hf⟩ := hfollow
      rw [h.advances.grows.child?_eq hc_lt hcid] at hd
      exact .inr (.inr (.inl (h.finished_below hs (hsecond d hd) hf)))

theorem lookUp (h : Progress e F id r₀ (fun _ => False) r) (hs : Site F id r₀) {path : Path}
    (hp : Lands e F r₀.tree id path) :
    Progress e F id r₀ (fun _ => False) (r.lookUp id path).2 := by
  refine h.own hs (.note h.advances.grows.linked rfl) rfl ?_
  intro later x path' t value earlier htrace hlen
  rcases trace_split (show [_] ++ _ = _ from htrace) with ⟨-, mid, hmid, rfl⟩ | ⟨hlt, -⟩
  · obtain ⟨rfl, rfl⟩ : later = [] ∧ mid = [] := by
      cases later with
      | nil => exact ⟨rfl, by simpa using (List.cons.inj hmid).2.symm⟩
      | cons first rest => simp at hmid
    simp only [List.nil_append, List.cons.injEq, Event.lookedUp.injEq, and_true] at hmid
    obtain ⟨rfl, rfl, hfound, hvalue⟩ := hmid
    obtain ⟨ht, hread⟩ := h.found hs hp hfound
    refine ⟨h.advances.lt hs.lt, ht, ?_⟩
    rcases hread with hread | hread | hread
    · exact .inl hread
    · exact .inr (.inl hread)
    · refine .inr (.inr ⟨hread, ?_, ?_, by simp⟩)
      · rw [← hvalue, hfound]
        rfl
      · rcases hread with hF | ⟨hle, hlt, -⟩
        · exact h.advances.began_mem (hs.begun hF)
        · exact h.begun hle hlt not_false
  · exact absurd hlen (Nat.not_le.2 hlt)

/-- The parts of a local stage. -/
theorem keeps (hs : Site F id r₀) {paths : List Path}
    (hp : ∀ path ∈ paths, Lands e F r₀.tree id path) :
    Keeps paths id (Progress e F id r₀ fun _ => False) where
  touch hf h := h.own hs (.touch h.advances.grows.linked id hf) (TrackerTree.size_update _ _)
    (.of_new [] rfl (by simp))
  note he hlook h := h.own hs (.note h.advances.grows.linked he) rfl
    (.of_new [_] rfl (by simpa using hlook))
  tally htree htrace h := h.own hs
    (.of_grows (by rw [htree]; exact .refl h.advances.grows.linked id) htrace) (by rw [htree])
    (.of_new [] htrace (by simp))
  lookUp hpath h := h.lookUp hs (hp _ hpath)

end Progress

end Run

end Intake
