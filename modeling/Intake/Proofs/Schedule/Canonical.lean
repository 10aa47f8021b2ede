import Mathlib.Data.List.Find
import Intake.Proofs.Fallible
import Intake.Proofs.Schedule.History
/-!
# The order among orders

Of all orders of its nodes a schedule gives the first one, when keys are compared by the place at
which they have been registered (`least_order_of_reachable`):

    g.order = .ok (keys, g') → g.Orders other → other ≠ keys →
      keys.map g.position < other.map g.position

At each place stands the first registered key that is `ready` there.  The reduction scans the keys
that are left, in order of registration, and `Outstanding.find_ready` says that it comes upon that
key.  Another order can only depart from this one by a key that is ready too, and such a key is
registered later (`FirstReady.least`).  The nodes in order of registration and the set of edges are
thus all that the order depends on.
-/

namespace Intake

namespace Schedule

open Relation

variable {α β : Type}

/-- Whether all producers of a key have been taken. -/
def free (edges : List (String × String)) (done : List String) (key : String) : Bool :=
  edges.all fun edge => edge.2 != key || done.contains edge.1

/-- Whether a key can be taken next. -/
def ready (edges : List (String × String)) (done : List String) (key : String) : Bool :=
  !done.contains key && free edges done key

/-- At each place stands the first key in order of registration that is ready there. -/
def FirstReady (g : Schedule α) (keys : List String) : Prop :=
  ∀ done key rest, keys = done ++ key :: rest →
    (Table.names g.nodes).find? (ready g.edges done) = some key

/-- The place at which a key has been registered. -/
def position (g : Schedule α) (key : String) : Nat := (Table.names g.nodes).idxOf key

theorem free_iff {edges : List (String × String)} {done : List String} {key : String} :
    free edges done key = true ↔ ∀ p, Joins edges p key → p ∈ done := by
  simp only [free, List.all_eq_true, Bool.or_eq_true, bne_iff_ne, List.contains_eq_mem,
    decide_eq_true_eq]
  constructor
  · intro h p hj
    exact (h (p, key) hj).resolve_left fun hne => hne rfl
  · intro h edge hedge
    by_cases hkey : edge.2 = key
    · exact .inr (h edge.1 (hkey ▸ hedge))
    · exact .inl hkey

theorem ready_iff {edges : List (String × String)} {done : List String} {key : String} :
    ready edges done key = true ↔ key ∉ done ∧ ∀ p, Joins edges p key → p ∈ done := by
  rw [ready, Bool.and_eq_true, free_iff]
  simp

/-! ## The reduction -/

section

variable {edges : List (String × String)} {pending : Table (List String)}
  {names done keys : List String}

/-- What is left once `done` has been taken from `names`. -/
structure Left (edges : List (String × String)) (names done : List String)
    (pending : Table (List String)) : Prop where
  outstanding : Outstanding edges pending
  names_eq : Table.names pending = names.filter fun key => !done.contains key

theorem Left.take (h : Left edges names done pending) (key : String) :
    Left edges names (done ++ [key]) (take key pending) := by
  refine ⟨h.outstanding.take key, ?_⟩
  rw [names_take, h.outstanding.nodup.erase_eq_filter, h.names_eq, List.filter_filter]
  refine List.filter_congr fun other _ => ?_
  simp [Bool.and_comm, bne, Bool.beq_eq_decide_eq]

/-- The first key that is left and waits for nothing is the first one that is ready. -/
theorem Left.find_ready (h : Left edges names done pending)
    (hregistered : ∀ p c, Joins edges p c → p ∈ names) :
    (pending.find? (·.2.isEmpty)).map (·.1) = names.find? (ready edges done) := by
  have hfree : ∀ entry ∈ pending, entry.2.isEmpty = free edges done entry.1 := by
    intro entry hentry
    have hwaits : ∀ p, p ∈ entry.2 ↔ Joins edges p entry.1 ∧ p ∉ done := by
      intro p
      rw [(h.outstanding.producers entry hentry).2 p, h.names_eq]
      have hmem : Joins edges p entry.1 → p ∈ names := hregistered p entry.1
      simp only [List.mem_filter, List.contains_eq_mem, Bool.not_eq_true', decide_eq_false_iff_not]
      tauto
    rw [Bool.eq_iff_iff, List.isEmpty_iff, List.eq_nil_iff_forall_not_mem, free_iff]
    simp only [hwaits, not_and, not_not]
  calc (pending.find? (·.2.isEmpty)).map (·.1)
    _ = (pending.find? fun entry => free edges done entry.1).map (·.1) := by
      rw [List.find?_congr hfree]
    _ = (Table.names pending).find? (free edges done) := by
      rw [Table.names, List.find?_map]
      rfl
    _ = names.find? (ready edges done) := by
      rw [h.names_eq, List.find?_filter]
      refine List.find?_congr fun key _ => ?_
      simp [ready]

/-- The reduction takes, again and again, the first key that is ready. -/
theorem Left.settle_ready (h : Left edges names done pending)
    (hregistered : ∀ p c, Joins edges p c → p ∈ names) (hkeys : settle pending = .ok keys) :
    ∀ front key rest, keys = front ++ key :: rest →
      names.find? (ready edges (done ++ front)) = some key := by
  fun_induction settle pending generalizing done keys with
  | case1 pending first producers hfind ih =>
    obtain ⟨later, hlater, hcons⟩ := bind_eq_ok.1 hkeys
    obtain rfl := Except.ok.inj hcons
    intro front key rest hsplit
    cases front with
    | nil =>
      obtain ⟨rfl, -⟩ := List.cons.inj hsplit
      rw [List.append_nil, ← h.find_ready hregistered, hfind]
      rfl
    | cons head front =>
      obtain ⟨rfl, htail⟩ := List.cons.inj hsplit
      have := ih (h.take first) hlater front key rest htail
      rwa [List.append_assoc] at this
  | case2 pending hfind hempty =>
    obtain rfl := Except.ok.inj hkeys
    intro front key rest hsplit
    simp at hsplit
  | case3 pending hfind hne => cases hkeys

end

/-! ## The least order -/

section

variable {g : Schedule α} {keys : List String}

/-- A key that is ready is the first such key, or registered after it. -/
theorem position_lt {done : List String} {first key : String}
    (hfirst : (Table.names g.nodes).find? (ready g.edges done) = some first)
    (hready : ready g.edges done key = true) (hne : key ≠ first) :
    g.position first < g.position key := by
  obtain ⟨-, before, behind, hnames, hbefore⟩ := List.find?_eq_some_iff_append.1 hfirst
  have hkey' : key ∉ before := fun hmem => by
    have := hbefore key hmem
    simp [hready] at this
  have hfirst' : first ∉ before := fun hmem => by
    have := hbefore first hmem
    simp [List.find?_some hfirst] at this
  rw [position, position, hnames, List.idxOf_append_of_notMem hfirst',
    List.idxOf_append_of_notMem hkey', List.idxOf_cons_self, List.idxOf_cons_ne _ hne.symm]
  omega

/-- Any other order departs from the first one by a key that is registered later. -/
theorem FirstReady.least (h : g.FirstReady keys) (hs : g.Sound) (hkeys : g.Orders keys)
    (other : List String) (hother : g.Orders other) (hne : other ≠ keys) :
    keys.map g.position < other.map g.position := by
  have hlength : other.length = keys.length := (hother.perm.trans hkeys.perm.symm).length_eq
  -- `done` is what the two orders begin with
  have hfrom : ∀ tail tail' done, keys = done ++ tail → other = done ++ tail' → tail' ≠ tail →
      tail.map g.position < tail'.map g.position := by
    intro tail
    induction tail with
    | nil =>
      intro tail' done htail htail' hne
      simp only [htail, htail', List.length_append, List.length_nil] at hlength
      exact absurd (List.length_eq_zero_iff.1 (by omega)) hne
    | cons key tail ih =>
      intro tail' done htail htail' hne
      cases tail' with
      | nil =>
        simp only [htail, htail', List.length_append, List.length_cons, List.length_nil] at hlength
        omega
      | cons key' tail' =>
        rw [List.map_cons, List.map_cons, List.cons_lt_cons_iff]
        by_cases hkey : key' = key
        · subst hkey
          have hne' : tail' ≠ tail := fun he => hne (by rw [he])
          exact .inr ⟨rfl, ih tail' (done ++ [key']) (by simp [htail]) (by simp [htail']) hne'⟩
        · have hready := ready_iff.2 ((htail' ▸ hother).producers_mem hs)
          exact .inl (position_lt (h done key tail htail) hready hkey)
  exact hfrom keys other [] rfl rfl hne

theorem Sound.left (h : g.Sound) : Left g.edges (Table.names g.nodes) [] g.waiting := by
  refine ⟨h.outstanding, ?_⟩
  simp [waiting, Table.names]

/-- The order is made of the keys that are ready first. -/
theorem Sound.firstReady (h : g.Sound) (hcurrent : g.Current) {g' : Schedule α}
    (ho : g.order = .ok (keys, g')) : g.FirstReady keys := by
  rw [hcurrent.order_eq] at ho
  obtain ⟨keys', hsettle, heq⟩ := map_eq_ok.1 ho
  obtain ⟨rfl, -⟩ := Prod.mk.inj heq
  exact h.left.settle_ready (fun p c hj => (h.registered p c hj).1) hsettle

/-- An operation leaves no order behind that is not the one of the moment. -/
theorem Current.step {g' : Schedule α} (h : g.Current) (hs : Step g g') : g'.Current := by
  have answered : ∀ {γ : Type} (apply : α → γ → γ) (request : Request α γ),
      (g.answer apply request).2.Current :=
    fun apply request => ((Same.forget h).answer apply request).2.current
  cases hs with
  | create key operation =>
    have := answered (fun _ c => c) (.create key operation : Request α Unit)
    rwa [answer, snd_reply_done] at this
  | obtain key operation =>
    exact answered (fun _ c => c) (.obtain key operation : Request α Unit)
  | link p c =>
    have := answered (fun _ c => c) (.link p c : Request α Unit)
    rwa [answer, snd_reply_done] at this
  | order =>
    have := answered (fun _ c => c) (.order : Request α Unit)
    rwa [answer, snd_reply] at this
  | execute apply context =>
    have := answered apply (.execute context)
    rwa [answer, snd_reply] at this

theorem Reachable.current (h : Reachable g) : g.Current := by
  induction h with
  | refl => exact current_of_uncached rfl
  | tail _ hs ih => exact ih.step hs

/-- The same keys are orders of schedules with the same nodes and the same set of edges. -/
theorem Orders.congr {g' : Schedule β} (h : g.Orders keys)
    (hnames : Table.names g.nodes = Table.names g'.nodes)
    (hedges : ∀ p c, Joins g.edges p c ↔ Joins g'.edges p c) : g'.Orders keys :=
  ⟨hnames ▸ h.perm, fun p c hj => h.before p c ((hedges p c).2 hj)⟩

theorem position_congr {g' : Schedule β} (hnames : Table.names g.nodes = Table.names g'.nodes) :
    g.position = g'.position := by
  funext key
  rw [position, position, hnames]

end

/-- A schedule gives the first of all its orders, keys compared by the place at which they have
been registered: at each place stands the first registered key whose producers all stand before
it.  So it gives the order of any other schedule whose keys have been registered in the same
sequence and that has the same set of edges, whatever has led to the two. -/
theorem least_order_of_reachable {g : Schedule α} (h : Reachable g) :
    ∃ keys g₁, g.order = .ok (keys, g₁) ∧ g.Orders keys ∧
      (∀ other, g.Orders other → other ≠ keys →
        keys.map g.position < other.map g.position) ∧
      (∀ done key rest, keys = done ++ key :: rest →
        (Table.names g.nodes).find? (ready g.edges done) = some key) ∧
      ∀ {β : Type} (g' : Schedule β), Reachable g' →
        Table.names g.nodes = Table.names g'.nodes →
        (∀ p c, Joins g.edges p c ↔ Joins g'.edges p c) →
        ∃ g₂, g'.order = .ok (keys, g₂) := by
  obtain ⟨keys, ho, hkeys⟩ := h.sound.order_eq
  have hfirst := h.sound.firstReady h.current ho
  have hleast := hfirst.least h.sound hkeys
  refine ⟨keys, _, ho, hkeys, hleast, hfirst, ?_⟩
  intro β g' h' hnames hedges
  obtain ⟨keys', ho', hkeys'⟩ := h'.sound.order_eq
  have hfirst' := h'.sound.firstReady h'.current ho'
  have heq : keys' = keys := by
    by_contra hne
    have hlt := hleast keys' (hkeys'.congr hnames.symm fun p c => (hedges p c).symm) hne
    have hlt' := hfirst'.least h'.sound hkeys' keys (hkeys.congr hnames hedges) (Ne.symm hne)
    rw [position_congr hnames] at hlt
    exact List.lt_asymm hlt hlt'
  exact ⟨_, heq ▸ ho'⟩

/-- Two keys of which one produces for the other, and a third one. -/
def trio : Schedule String :=
  ⟨[("b", none), ("a", none), ("c", none)], [("a", "b")], none⟩

theorem reachable_trio : Reachable trio :=
  reachable_pair.tail (.create ⟨[("b", none), ("a", none)], [("a", "b")], none⟩ "c" none)

theorem least_order_of_reachable_trio :
    Reachable trio ∧ ∃ keys g₁, trio.order = .ok (keys, g₁) ∧ keys.head? = some "a" ∧
      keys.map trio.position < ["c", "a", "b"].map trio.position := by
  refine ⟨reachable_trio, ?_⟩
  obtain ⟨keys, g₁, ho, hkeys, hleast, hfirst, -⟩ := least_order_of_reachable reachable_trio
  have hhead : keys.head? = some "a" := by
    cases keys with
    | nil => exact absurd hkeys.perm.length_eq (by decide)
    | cons key rest => exact (hfirst [] key rest rfl).symm.trans (by decide)
  have hother : trio.Orders ["c", "a", "b"] := by
    refine ⟨by decide, fun p c hj => ?_⟩
    obtain ⟨rfl, rfl⟩ := Prod.mk.inj (List.mem_singleton.1 hj)
    decide
  refine ⟨keys, g₁, ho, hhead, hleast _ hother ?_⟩
  rintro rfl
  exact absurd hhead (by decide)

end Schedule

end Intake
