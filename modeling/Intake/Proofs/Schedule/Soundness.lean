import Intake.Proofs.Schedule.Order
/-!
# What holds of every schedule

`Sound` is the invariant of a schedule: no key stands twice, edges join registered keys and close
no cycle, and an order that is kept is an order of what is there now.

    Reachable g → g.Sound          (`Reachable.sound`, one lemma per operation)

The cycle test of `link` is exact because the search is (`reaches_iff`), and with that an order
always exists (`Sound.order_eq`).  The two main results are read off the invariant:
`order_of_reachable` for the order and `link_of_reachable` for linking.  An operation that is
refused returns no schedule; `after` says that the one before it stays.
-/

namespace Intake

namespace Schedule

open Relation

variable {α : Type}

/-- An order of a schedule: every node once, and every producer before its consumer. -/
structure Orders (g : Schedule α) (keys : List String) : Prop where
  perm : keys.Perm (Table.names g.nodes)
  before : ∀ p c, Joins g.edges p c → [p, c].Sublist keys

/-- What holds of a schedule however it has come about. -/
structure Sound (g : Schedule α) : Prop where
  nodup : (Table.names g.nodes).Nodup
  edges_nodup : g.edges.Nodup
  registered : ∀ p c, Joins g.edges p c → p ∈ Table.names g.nodes ∧ c ∈ Table.names g.nodes
  acyclic : ∀ key, ¬ TransGen (Joins g.edges) key key
  cached : ∀ keys, g.cached = some keys → g.Orders keys

/-- The schedule that is there after an operation, accepted or refused. -/
def after (g : Schedule α) : Except ScheduleError (Schedule α) → Schedule α
  | .ok g' => g'
  | .error _ => g

/-- One operation, accepted or refused. -/
inductive Step : Schedule α → Schedule α → Prop
  | create (g : Schedule α) (key : String) (operation : Option α) :
      Step g (g.after (g.create key operation))
  | obtain (g : Schedule α) (key : String) (operation : Option α) :
      Step g (g.obtain key operation)
  | link (g : Schedule α) (producer consumer : String) :
      Step g (g.after (g.link producer consumer))
  | order (g : Schedule α) : Step g (g.after (g.order.map (·.2)))
  | execute (g : Schedule α) {γ : Type} (apply : α → γ → γ) (context : γ) :
      Step g (g.after ((g.execute apply context).map (·.2)))

/-- A schedule that some operations lead to from the empty one. -/
def Reachable (g : Schedule α) : Prop := ReflTransGen Step empty g

/-! ## What the operations can do -/

theorem contains_eq_false {g : Schedule α} {key : String} (h : key ∉ Table.names g.nodes) :
    g.contains key = false :=
  Bool.eq_false_iff.2 fun hkey => h (Table.contains_iff.1 hkey)

/-- A node is refused if its key is registered. -/
theorem create_eq (g : Schedule α) (key : String) (operation : Option α) :
    (key ∈ Table.names g.nodes ∧ g.create key operation = .error (.duplicateNode key)) ∨
    (key ∉ Table.names g.nodes ∧ g.create key operation =
      .ok { g with nodes := g.nodes ++ [(key, operation)], cached := none }) := by
  unfold create
  by_cases hkey : key ∈ Table.names g.nodes
  · exact .inl ⟨hkey, if_pos (Table.contains_iff.2 hkey)⟩
  · exact .inr ⟨hkey, by rw [contains_eq_false hkey, if_neg Bool.false_ne_true]⟩

/-- A node is obtained as it is, with another operation, or as a new one. -/
theorem obtain_eq (g : Schedule α) (key : String) (operation : Option α) :
    (key ∈ Table.names g.nodes ∧ operation = none ∧ g.obtain key operation = g) ∨
    (key ∈ Table.names g.nodes ∧ ∃ f, operation = some f ∧
      g.obtain key operation = { g with nodes := Table.put key (some f) g.nodes }) ∨
    (key ∉ Table.names g.nodes ∧ g.obtain key operation =
      { g with nodes := g.nodes ++ [(key, operation)], cached := none }) := by
  unfold obtain
  by_cases hkey : key ∈ Table.names g.nodes
  · rw [if_pos (show g.contains key = true from Table.contains_iff.2 hkey)]
    cases operation with
    | none => exact .inl ⟨hkey, rfl, rfl⟩
    | some f => exact .inr (.inl ⟨hkey, f, rfl, rfl⟩)
  · exact .inr (.inr ⟨hkey, by rw [contains_eq_false hkey, if_neg Bool.false_ne_true]⟩)

namespace Sound

variable {g g' : Schedule α}

theorem empty : Sound (empty : Schedule α) :=
  ⟨List.nodup_nil, List.nodup_nil, fun _ _ h => absurd h List.not_mem_nil,
    fun _ h => by
      obtain ⟨_, h, _⟩ := TransGen.head'_iff.1 h
      exact absurd h List.not_mem_nil,
    fun _ h => by simp [Schedule.empty] at h⟩

/-- A node under a new key keeps everything, for the order is forgotten. -/
theorem register (h : g.Sound) {key : String} (hkey : key ∉ Table.names g.nodes)
    (operation : Option α) :
    Sound { g with nodes := g.nodes ++ [(key, operation)], cached := none } := by
  have hnames : Table.names (g.nodes ++ [(key, operation)]) = Table.names g.nodes ++ [key] := by
    simp [Table.names]
  refine ⟨?_, h.edges_nodup, ?_, h.acyclic, by simp⟩
  · rw [hnames]
    exact List.nodup_append.2 ⟨h.nodup, List.nodup_singleton key, by
      rintro a ha b hb rfl
      exact hkey (List.mem_singleton.1 hb ▸ ha)⟩
  · intro p c hj
    rw [hnames]
    exact ⟨List.mem_append_left _ (h.registered p c hj).1,
      List.mem_append_left _ (h.registered p c hj).2⟩

theorem create (h : g.Sound) {key : String} {operation : Option α}
    (hc : g.create key operation = .ok g') : g'.Sound := by
  rcases create_eq g key operation with ⟨-, he⟩ | ⟨hkey, he⟩ <;> rw [he] at hc
  · cases hc
  · exact Except.ok.inj hc ▸ h.register hkey operation

theorem obtain (h : g.Sound) (key : String) (operation : Option α) :
    (g.obtain key operation).Sound := by
  rcases obtain_eq g key operation with ⟨-, -, he⟩ | ⟨hkey, f, -, he⟩ | ⟨hkey, he⟩ <;> rw [he]
  · exact h
  · have hnames := Table.names_put_of_contains g.nodes key (some f) hkey
    refine ⟨hnames ▸ h.nodup, h.edges_nodup, hnames ▸ h.registered, h.acyclic, ?_⟩
    intro keys hkeys
    exact ⟨hnames ▸ (h.cached keys hkeys).perm, (h.cached keys hkeys).before⟩
  · exact h.register hkey operation

end Sound

/-- A path over one more edge avoids it, or goes through it. -/
theorem path_append {edges : List (String × String)} {p c a b : String}
    (h : TransGen (Joins (edges ++ [(p, c)])) a b) :
    TransGen (Joins edges) a b ∨
      ReflTransGen (Joins edges) a p ∧ ReflTransGen (Joins edges) c b := by
  have split : ∀ x y, Joins (edges ++ [(p, c)]) x y → Joins edges x y ∨ x = p ∧ y = c := by
    intro x y hj
    simpa [Joins] using hj
  induction h with
  | single hj =>
    rcases split _ _ hj with hj | ⟨rfl, rfl⟩
    · exact .inl (.single hj)
    · exact .inr ⟨.refl, .refl⟩
  | tail _ hj ih =>
    rcases split _ _ hj with hj | ⟨rfl, rfl⟩
    · rcases ih with ih | ⟨ha, hb⟩
      · exact .inl (ih.tail hj)
      · exact .inr ⟨ha, hb.tail hj⟩
    · rcases ih with ih | ⟨ha, _⟩
      · exact .inr ⟨ih.to_reflTransGen, .refl⟩
      · exact .inr ⟨ha, .refl⟩


namespace Sound

variable {g g' : Schedule α}

theorem not_path_back (h : g.Sound) {p c : String} (hj : Joins g.edges p c) :
    ¬ ReflTransGen (Joins g.edges) c p :=
  fun hpath => h.acyclic p (.head' hj hpath)

end Sound

/-- The four things that can come of a link, by what is registered and what the edges lead to. -/
theorem link_eq (g : Schedule α) (p c : String) :
    (p ∉ Table.names g.nodes ∧ g.link p c = .error (.unknownNode p)) ∨
    (p ∈ Table.names g.nodes ∧ c ∉ Table.names g.nodes ∧
      g.link p c = .error (.unknownNode c)) ∨
    (p ∈ Table.names g.nodes ∧ c ∈ Table.names g.nodes ∧ Joins g.edges p c ∧
      g.link p c = .ok g) ∨
    (p ∈ Table.names g.nodes ∧ c ∈ Table.names g.nodes ∧ ¬ Joins g.edges p c ∧
      ReflTransGen (Joins g.edges) c p ∧ g.link p c = .error (.cycle p c)) ∨
    (p ∈ Table.names g.nodes ∧ c ∈ Table.names g.nodes ∧ ¬ Joins g.edges p c ∧
      ¬ ReflTransGen (Joins g.edges) c p ∧
      g.link p c = .ok { g with edges := g.edges ++ [(p, c)], cached := none }) := by
  unfold link
  by_cases hp : p ∈ Table.names g.nodes
  · have hp' : g.contains p = true := Table.contains_iff.2 hp
    by_cases hc : c ∈ Table.names g.nodes
    · have hc' : g.contains c = true := Table.contains_iff.2 hc
      by_cases hj : (p, c) ∈ g.edges
      · exact .inr (.inr (.inl ⟨hp, hc, hj, by simp [hp', hc', hj]⟩))
      · have hcycle : (p = c ∨ reaches g.edges c p = true) ↔
            ReflTransGen (Joins g.edges) c p := by
          rw [reaches_iff]
          exact ⟨fun h => h.elim (fun he => he ▸ .refl) id, .inr⟩
        by_cases hpath : ReflTransGen (Joins g.edges) c p
        · exact .inr (.inr (.inr (.inl ⟨hp, hc, hj, hpath, by simp [hp', hc', hj, hcycle, hpath]⟩)))
        · exact .inr (.inr (.inr (.inr ⟨hp, hc, hj, hpath, by simp [hp', hc', hj, hcycle, hpath]⟩)))
    · have hc' : g.contains c = false := contains_eq_false hc
      exact .inr (.inl ⟨hp, hc, by simp [hp', hc']⟩)
  · have hp' : g.contains p = false := contains_eq_false hp
    exact .inl ⟨hp, by simp [hp']⟩

namespace Sound

variable {g g' : Schedule α}

theorem link (h : g.Sound) {p c : String} (hl : g.link p c = .ok g') : g'.Sound := by
  rcases link_eq g p c with ⟨_, he⟩ | ⟨_, _, he⟩ | ⟨_, _, _, he⟩ | ⟨_, _, _, _, he⟩ |
      ⟨hp, hc, hj, hpath, he⟩ <;> rw [he] at hl
  · simp at hl
  · simp at hl
  · exact Except.ok.inj hl ▸ h
  · simp at hl
  · obtain rfl := Except.ok.inj hl
    refine ⟨h.nodup, ?_, ?_, ?_, by simp⟩
    · refine List.nodup_append.2 ⟨h.edges_nodup, List.nodup_singleton _, ?_⟩
      rintro a ha b hb rfl
      rw [List.mem_singleton.1 hb] at ha
      exact hj ha
    · intro x y hxy
      rcases List.mem_append.1 hxy with hxy | hxy
      · exact h.registered x y hxy
      · obtain ⟨rfl, rfl⟩ := Prod.mk.inj (List.mem_singleton.1 hxy)
        exact ⟨hp, hc⟩
    · intro k hk
      rcases path_append hk with hk | ⟨ha, hb⟩
      · exact h.acyclic k hk
      · exact hpath (hb.trans ha)

theorem outstanding (h : g.Sound) : Outstanding g.edges g.waiting := by
  have hnames : Table.names g.waiting = Table.names g.nodes := by
    simp [waiting, Table.names]
  refine ⟨hnames ▸ h.nodup, ?_⟩
  intro entry hentry
  obtain ⟨key, hkey, rfl⟩ := List.mem_map.1 hentry
  constructor
  · refine List.Nodup.map_on ?_ (h.edges_nodup.filter _)
    intro a ha b hb hab
    have ha' := (List.mem_filter.1 ha).2
    have hb' := (List.mem_filter.1 hb).2
    simp only [beq_iff_eq] at ha' hb'
    exact Prod.ext hab (ha'.trans hb'.symm)
  · intro other
    rw [hnames]
    constructor
    · intro ho
      obtain ⟨⟨a, b⟩, hmem, rfl⟩ := List.mem_map.1 ho
      obtain ⟨hmem, hb⟩ := List.mem_filter.1 hmem
      have hj : Joins g.edges a key := by simpa [Joins, ← eq_of_beq hb] using hmem
      exact ⟨hj, (h.registered a key hj).1⟩
    · rintro ⟨hj, -⟩
      exact List.mem_map.2 ⟨(other, key), List.mem_filter.2 ⟨hj, by simp⟩, rfl⟩

/-- An order exists, orders the schedule, and is kept. -/
theorem order_eq (h : g.Sound) :
    ∃ keys, g.order = .ok (keys, { g with cached := some keys }) ∧ g.Orders keys := by
  cases hc : g.cached with
  | some keys =>
    have hg : { g with cached := some keys } = g := by rw [← hc]
    exact ⟨keys, by rw [hg]; simp only [Schedule.order, hc], h.cached keys hc⟩
  | none =>
    obtain ⟨keys, hkeys, hperm, hbefore⟩ := h.outstanding.settle_eq h.acyclic
    have hnames : Table.names g.waiting = Table.names g.nodes := by
      simp [waiting, Table.names]
    rw [hnames] at hperm hbefore
    refine ⟨keys, by simp only [Schedule.order, hc, hkeys]; rfl, hperm, fun p c hj => ?_⟩
    exact hbefore p c hj (h.registered p c hj).1 (h.registered p c hj).2

theorem order (h : g.Sound) {keys : List String} (ho : g.order = .ok (keys, g')) :
    g'.Sound ∧ g'.Orders keys := by
  obtain ⟨keys', he, hkeys⟩ := h.order_eq
  rw [he] at ho
  obtain ⟨rfl, rfl⟩ := Prod.mk.inj (Except.ok.inj ho)
  have hkeys' : Orders { g with cached := some keys' } keys' := ⟨hkeys.perm, hkeys.before⟩
  refine ⟨⟨h.nodup, h.edges_nodup, h.registered, h.acyclic, ?_⟩, hkeys'⟩
  intro keys hk
  exact Option.some.inj hk ▸ hkeys'

end Sound

/-- Executing changes the schedule as ordering does. -/
theorem order_of_execute {g g' : Schedule α} {γ : Type} {apply : α → γ → γ} {context : γ}
    (h : (g.execute apply context).map (·.2) = .ok g') : g.order.map (·.2) = .ok g' := by
  unfold execute at h
  cases ho : g.order with
  | error e => simp [ho, bind, Except.bind, Except.map] at h
  | ok out => simpa [ho, bind, Except.bind, pure, Except.pure, Except.map] using h

theorem Sound.after {g : Schedule α} (h : g.Sound) {r : Except ScheduleError (Schedule α)}
    (hr : ∀ g', r = .ok g' → g'.Sound) : (g.after r).Sound := by
  cases r with
  | ok g' => exact hr g' rfl
  | error _ => exact h

theorem Sound.step {g g' : Schedule α} (h : g.Sound) (hs : Step g g') : g'.Sound := by
  have ordered : ∀ g', g.order.map (·.2) = .ok g' → g'.Sound := by
    intro g' ho
    obtain ⟨keys, he, _⟩ := h.order_eq
    rw [he] at ho
    obtain rfl := Except.ok.inj ho
    exact (h.order he).1
  cases hs with
  | create key operation => exact h.after fun _ hc => h.create hc
  | obtain key operation => exact h.obtain key operation
  | link p c => exact h.after fun _ hl => h.link hl
  | order => exact h.after ordered
  | execute apply context => exact h.after fun g' he => ordered g' (order_of_execute he)

theorem Reachable.sound {g : Schedule α} (h : Reachable g) : g.Sound := by
  induction h with
  | refl => exact Sound.empty
  | tail _ hs ih => exact ih.step hs

/-- In an order a key stands once, and after all its producers. -/
theorem Orders.producers_mem {g : Schedule α} {done rest : List String} {key : String}
    (h : g.Orders (done ++ key :: rest)) (hs : g.Sound) :
    key ∉ done ∧ ∀ p, Joins g.edges p key → p ∈ done := by
  have hnodup := h.perm.nodup_iff.2 hs.nodup
  have hkey : key ∉ done := fun hmem =>
    (List.nodup_append.1 hnodup).2.2 key hmem key List.mem_cons_self rfl
  refine ⟨hkey, fun p hj => ?_⟩
  -- a producer after its consumer would stand there twice
  by_contra hpd
  have hsub := (h.before p key hj).filter (fun other => !done.contains other)
  have hrest : (done ++ key :: rest).filter (fun other => !done.contains other) = key :: rest := by
    have hnone : done.filter (fun other => !done.contains other) = [] :=
      List.filter_eq_nil_iff.2 fun other hother => by simp [hother]
    have hall : (key :: rest).filter (fun other => !done.contains other) = key :: rest :=
      List.filter_eq_self.2 fun other hother => by
        have : other ∉ done := fun hmem =>
          (List.nodup_append.1 hnodup).2.2 other hmem other hother rfl
        simpa using this
    rw [List.filter_append, hnone, hall, List.nil_append]
  rw [hrest] at hsub
  have hpair : [p, key].Sublist (key :: rest) := by simpa [hpd, hkey] using hsub
  have hne : p ≠ key := by
    rintro rfl
    exact hs.acyclic p (.single hj)
  have htail : [p, key].Sublist rest := (List.cons_sublist_cons'.1 hpair).resolve_right
    fun h => hne h.1
  have hmem : key ∈ rest := htail.subset (by simp)
  exact (List.nodup_cons.1 (List.nodup_append.1 hnodup).2.1).1 hmem

/-! ## The main results -/

/-- However a schedule has come about, its edges join registered keys without a cycle, and the
order of its keys exists: every key once, and the producer of every edge before its consumer. -/
theorem order_of_reachable {g : Schedule α} (h : Reachable g) :
    (∀ p c, Joins g.edges p c → g.contains p = true ∧ g.contains c = true) ∧
    (∀ key, ¬ TransGen (Joins g.edges) key key) ∧
    (∀ remaining, g.order ≠ .error (.stalled remaining)) ∧
    ∃ keys g', g.order = .ok (keys, g') ∧ keys.Nodup ∧
      (∀ key, key ∈ keys ↔ g.contains key = true) ∧
      ∀ p c, Joins g.edges p c → [p, c].Sublist keys := by
  have hg := h.sound
  obtain ⟨keys, horder, hkeys⟩ := hg.order_eq
  refine ⟨?_, hg.acyclic, ?_, keys, _, horder, ?_, ?_, hkeys.before⟩
  · intro p c hj
    obtain ⟨hp, hc⟩ := hg.registered p c hj
    exact ⟨Table.contains_iff.2 hp, Table.contains_iff.2 hc⟩
  · intro remaining he
    rw [horder] at he
    cases he
  · exact hkeys.perm.nodup_iff.2 hg.nodup
  · intro key
    rw [hkeys.perm.mem_iff]
    exact Table.contains_iff.symm

/-- Two keys, the consumer registered first. -/
theorem reachable_pair :
    Reachable (⟨[("b", none), ("a", none)], [("a", "b")], none⟩ : Schedule String) := by
  have hl : Step (⟨[("b", none), ("a", none)], [], none⟩ : Schedule String)
      ⟨[("b", none), ("a", none)], [("a", "b")], none⟩ := by
    have he : (⟨[("b", none), ("a", none)], [], none⟩ : Schedule String).link "a" "b" =
        .ok ⟨[("b", none), ("a", none)], [("a", "b")], none⟩ := by
      have hreaches : reaches [] "b" "a" = false := by
        refine Bool.eq_false_iff.2 fun hreaches => ?_
        rcases (reaches_iff.1 hreaches).cases_head with he | ⟨next, hj, -⟩
        · exact absurd he (by decide)
        · exact absurd hj List.not_mem_nil
      simp [link, contains, Table.contains, Table.get?_cons, hreaches]
    have := Step.link (⟨[("b", none), ("a", none)], [], none⟩ : Schedule String) "a" "b"
    rwa [he] at this
  exact ((ReflTransGen.single (.create empty "b" none)).tail
    (.create ⟨[("b", none)], [], none⟩ "a" none)).tail hl

theorem order_of_reachable_pair :
    Reachable (⟨[("b", none), ("a", none)], [("a", "b")], none⟩ : Schedule String) ∧
    ∃ keys g', (⟨[("b", none), ("a", none)], [("a", "b")], none⟩ : Schedule String).order =
      .ok (keys, g') ∧ ["a", "b"].Sublist keys := by
  refine ⟨reachable_pair, ?_⟩
  obtain ⟨-, -, -, keys, g', ho, -, -, hbefore⟩ := order_of_reachable reachable_pair
  exact ⟨keys, g', ho, hbefore "a" "b" List.mem_cons_self⟩

theorem joins_path_iff {edges : List (String × String)} {p c : String} :
    ReflTransGen (Joins edges) c p ↔ p = c ∨ TransGen (Joins edges) c p := by
  rw [reflTransGen_iff_eq_or_transGen]

open Classical in
/-- Linking fails for an unregistered key, the producer first, and for an edge that would close a
cycle, and in no other case.  It changes nothing but the edges and the kept order, and these
only for an edge that is accepted and new. -/
theorem link_of_reachable {g : Schedule α} (h : Reachable g) (p c : String) :
    (∀ key, g.link p c = .error (.unknownNode key) ↔
      g.contains p = false ∧ key = p ∨
        g.contains p = true ∧ g.contains c = false ∧ key = c) ∧
    (∀ x y, g.link p c = .error (.cycle x y) ↔
      (x = p ∧ y = c) ∧ (g.contains p = true ∧ g.contains c = true) ∧
        (p = c ∨ TransGen (Joins g.edges) c p)) ∧
    ((∃ g', g.link p c = .ok g') ↔
      (g.contains p = true ∧ g.contains c = true) ∧
        ¬ (p = c ∨ TransGen (Joins g.edges) c p)) ∧
    g.after (g.link p c) =
      if (g.contains p = true ∧ g.contains c = true) ∧
          ¬ (p = c ∨ TransGen (Joins g.edges) c p) ∧ ¬ Joins g.edges p c then
        { g with edges := g.edges ++ [(p, c)], cached := none }
      else g := by
  have hback : Joins g.edges p c → ¬ ReflTransGen (Joins g.edges) c p := h.sound.not_path_back
  simp only [← joins_path_iff, Bool.eq_false_iff, ne_eq, contains, Table.contains_iff]
  rcases link_eq g p c with ⟨hp, he⟩ | ⟨hp, hc, he⟩ | ⟨hp, hc, hj, he⟩ | ⟨hp, hc, hj, hpath, he⟩ |
      ⟨hp, hc, hj, hpath, he⟩
  · simp [he, hp, after, eq_comm]
  · simp [he, hp, hc, after, eq_comm]
  · simp [he, hp, hc, hj, hback hj, after]
  · simp [he, hp, hc, hj, hpath, after, eq_comm]
  · simp [he, hp, hc, hj, hpath, after]

theorem link_of_reachable_pair :
    Reachable (⟨[("b", none), ("a", none)], [("a", "b")], none⟩ : Schedule String) ∧
    (⟨[("b", none), ("a", none)], [("a", "b")], none⟩ : Schedule String).link "b" "a" =
      .error (.cycle "b" "a") := by
  refine ⟨reachable_pair, ?_⟩
  refine ((link_of_reachable reachable_pair "b" "a").2.1 "b" "a").2 ⟨⟨rfl, rfl⟩, by decide, ?_⟩
  exact .inr (.single List.mem_cons_self)

end Schedule

end Intake
