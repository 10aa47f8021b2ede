import Mathlib.Logic.Relation
import Mathlib.Data.List.Basic
import Intake.Proofs.Table
import Intake.Schedule
/-!
# The search is exact

The depth-first search takes the keys from its stack, one in each turn.  A key that has been seen
is dropped; any other has been seen now, and its consumers are put in its place.  A key may be on
the stack many times, but an edge puts its consumer there only once, when its producer is seen.  So

    the edges whose producer has not been seen + the keys on the stack

is one less after each turn, and whatever cycles there are, a search is over when it has taken one
turn for each edge and one for its start.

What is on the stack can be reached, and what a seen key leads to has been seen or is on the stack
(`Sweep.Fair`).  So the search finds its target exactly if the edges lead there:

    reaches edges start target = true ↔ ReflTransGen (Joins edges) start target
-/

namespace Intake

namespace Schedule

open Relation

/-- An edge of the list from one key to another. -/
def Joins (edges : List (String × String)) (producer consumer : String) : Prop :=
  (producer, consumer) ∈ edges

theorem mem_consumers {edges : List (String × String)} {key other : String} :
    other ∈ consumers edges key ↔ Joins edges key other := by
  simp [consumers, Joins, List.mem_map, List.mem_filter]

/-! ## Turns -/

/-- A search on its way: the keys that have been seen, and those that are still to be looked at. -/
structure Sweep where
  seen : List String := []
  stack : List String

/-- The answer of a search that is over. -/
def Sweep.answer? (target : String) : Sweep → Option Bool
  | ⟨_, []⟩ => some false
  | ⟨_, key :: _⟩ => if key = target then some true else none

/-- The turns that a search still has: one for each key on the stack, and one for each that will be
put there. -/
def Sweep.left (edges : List (String × String)) (s : Sweep) : Nat :=
  (edges.filter (·.1 ∉ s.seen)).length + s.stack.length

/-- A turn of a search.  In which order the consumers of a key are put on the stack does not
matter. -/
inductive Turn (edges : List (String × String)) (target : String) : Sweep → Sweep → Prop
  | drop {seen stack : List String} {key : String} (hne : key ≠ target) (hseen : key ∈ seen) :
      Turn edges target ⟨seen, key :: stack⟩ ⟨seen, stack⟩
  | look {seen stack next : List String} {key : String} (hne : key ≠ target) (hnew : key ∉ seen)
      (hnext : next.Perm (consumers edges key)) :
      Turn edges target ⟨seen, key :: stack⟩ ⟨key :: seen, next ++ stack⟩

/-- Some turns, one after the other. -/
inductive Turns (edges : List (String × String)) (target : String) : Nat → Sweep → Sweep → Prop
  | none (s : Sweep) : Turns edges target 0 s s
  | more {n : Nat} {s s' s'' : Sweep} (h : Turn edges target s s') (t : Turns edges target n s' s'') :
      Turns edges target (n + 1) s s''

section

variable {edges : List (String × String)} {start target : String} {n : Nat} {s s' : Sweep}

/-- The edges from a key that is seen now wait no longer. -/
theorem length_filter_unseen (edges : List (String × String)) {seen : List String} {key : String}
    (hnew : key ∉ seen) :
    (edges.filter (·.1 ∉ seen)).length =
      (edges.filter (·.1 ∉ key :: seen)).length + (consumers edges key).length := by
  have hsplit := List.length_eq_length_filter_add (l := edges.filter (·.1 ∉ seen)) (·.1 == key)
  rw [List.filter_filter, List.filter_filter] at hsplit
  rw [hsplit, Nat.add_comm, consumers, List.length_map]
  congr 2 <;> refine List.filter_congr fun e _ => ?_
  · by_cases he : e.1 = key <;> simp [he]
  · by_cases he : e.1 = key <;> simp [he, hnew]

theorem Turn.left_eq (h : Turn edges target s s') : s.left edges = s'.left edges + 1 := by
  cases h with
  | drop hne hseen => rfl
  | look hne hnew hnext =>
    simp only [Sweep.left, length_filter_unseen edges hnew, List.length_append, List.length_cons,
      hnext.length_eq]
    omega

theorem Turns.left_eq (h : Turns edges target n s s') : s.left edges = s'.left edges + n := by
  induction h with
  | none s => rfl
  | more h t ih => rw [h.left_eq, ih, Nat.add_assoc]

/-- A search goes on as long as it has no answer. -/
theorem exists_turn (h : s.answer? target = none) : ∃ s', Turn edges target s s' := by
  obtain ⟨seen, stack⟩ := s
  cases stack with
  | nil => cases h
  | cons key stack =>
    have hne : key ≠ target := fun he => nomatch (if_pos he).symm.trans h
    by_cases hseen : key ∈ seen
    · exact ⟨_, .drop hne hseen⟩
    · exact ⟨_, .look hne hseen (.refl _)⟩

/-- A search that has an answer is over. -/
theorem Turn.answer?_eq_none (h : Turn edges target s s') : s.answer? target = none := by
  cases h with
  | drop hne hseen => exact if_neg hne
  | look hne hnew hnext => exact if_neg hne

/-! ## What a turn keeps -/

/-- A search that leaves out nothing.  The start has been looked at or will be, and so has been or
will be whatever a seen key leads to. -/
structure Sweep.Fair (edges : List (String × String)) (start target : String) (s : Sweep) :
    Prop where
  reached : ∀ key ∈ s.stack, ReflTransGen (Joins edges) start key
  missed : target ∉ s.seen
  started : start ∈ s.seen ∨ start ∈ s.stack
  closed : ∀ key ∈ s.seen, ∀ other, Joins edges key other → other ∈ s.seen ∨ other ∈ s.stack

theorem Sweep.fair_start (edges : List (String × String)) (start target : String) :
    Sweep.Fair edges start target { stack := [start] } where
  reached _ hkey := List.mem_singleton.1 hkey ▸ .refl
  missed := List.not_mem_nil
  started := .inr List.mem_cons_self
  closed _ hkey := absurd hkey List.not_mem_nil

theorem Turn.fair (h : Turn edges target s s') (hs : s.Fair edges start target) :
    s'.Fair edges start target := by
  cases h with
  | @drop seen stack key hne hseen =>
    have keep : ∀ k, k ∈ seen ∨ k ∈ key :: stack → k ∈ seen ∨ k ∈ stack := by
      rintro k (hk | hk)
      · exact .inl hk
      · rcases List.mem_cons.1 hk with rfl | hk
        · exact .inl hseen
        · exact .inr hk
    exact ⟨fun k hk => hs.reached k (List.mem_cons_of_mem _ hk), hs.missed, keep _ hs.started,
      fun k hk o hj => keep o (hs.closed k hk o hj)⟩
  | @look seen stack next key hne hnew hnext =>
    have hmem : ∀ {o}, o ∈ next ↔ Joins edges key o := hnext.mem_iff.trans mem_consumers
    have keep : ∀ k, k ∈ seen ∨ k ∈ key :: stack → k ∈ key :: seen ∨ k ∈ next ++ stack := by
      rintro k (hk | hk)
      · exact .inl (List.mem_cons_of_mem _ hk)
      · rcases List.mem_cons.1 hk with rfl | hk
        · exact .inl List.mem_cons_self
        · exact .inr (List.mem_append_right _ hk)
    refine ⟨fun k hk => ?_, ?_, keep _ hs.started, fun k hk o hj => ?_⟩
    · rcases List.mem_append.1 hk with hk | hk
      · exact (hs.reached key List.mem_cons_self).tail (hmem.1 hk)
      · exact hs.reached k (List.mem_cons_of_mem _ hk)
    · exact List.not_mem_cons_of_ne_of_not_mem (Ne.symm hne) hs.missed
    · rcases List.mem_cons.1 hk with rfl | hk
      · exact .inr (List.mem_append_left _ (hmem.2 hj))
      · exact keep o (hs.closed k hk o hj)

theorem Turns.fair (h : Turns edges target n s s') (hs : s.Fair edges start target) :
    s'.Fair edges start target := by
  induction h with
  | none s => exact hs
  | more h t ih => exact ih (h.fair hs)

/-- With nothing left on the stack, all that the edges lead to has been seen. -/
theorem Sweep.Fair.answer_iff (hs : s.Fair edges start target) {b : Bool}
    (h : s.answer? target = some b) :
    b = true ↔ ReflTransGen (Joins edges) start target := by
  obtain ⟨seen, stack⟩ := s
  cases stack with
  | nil =>
    obtain rfl : false = b := Option.some.inj h
    have hseen : ∀ key, ReflTransGen (Joins edges) start key → key ∈ seen := by
      intro key hpath
      induction hpath with
      | refl => exact hs.started.resolve_right List.not_mem_nil
      | tail _ hj ih => exact (hs.closed _ ih _ hj).resolve_right List.not_mem_nil
    exact iff_of_false Bool.false_ne_true fun hpath => hs.missed (hseen target hpath)
  | cons key stack =>
    by_cases hkey : key = target
    · have htrue : true = b := Option.some.inj ((if_pos hkey).symm.trans h)
      exact iff_of_true htrue.symm (hkey ▸ hs.reached key List.mem_cons_self)
    · exact nomatch (if_neg hkey).symm.trans h

/-! ## The search takes turns -/

/-- A key that can turn up has been seen or is in `unseen`, and not both. -/
structure Sorted (edges : List (String × String)) (seen unseen stack : List String) : Prop where
  nodup : unseen.Nodup
  disjoint : ∀ key ∈ unseen, key ∉ seen
  stacked : ∀ key ∈ stack, key ∈ seen ∨ key ∈ unseen
  ahead : ∀ key other, Joins edges key other → other ∈ seen ∨ other ∈ unseen

theorem sorted_start (edges : List (String × String)) (start : String) :
    Sorted edges [] (start :: edges.map (·.2)).eraseDups [start] where
  nodup := Table.nodup_eraseDups _
  disjoint _ _ := List.not_mem_nil
  stacked key hkey := by
    rw [List.mem_singleton.1 hkey]
    exact .inr (List.mem_eraseDups.2 List.mem_cons_self)
  ahead key other hj :=
    .inr (List.mem_eraseDups.2 (List.mem_cons_of_mem _ (List.mem_map.2 ⟨(key, other), hj, rfl⟩)))

theorem turns_of_search (seen unseen stack : List String) (h : Sorted edges seen unseen stack) :
    ∃ n s, Turns edges target n ⟨seen, stack⟩ s ∧
      s.answer? target = some (search edges target unseen stack) := by
  fun_induction search edges target unseen stack generalizing seen with
  | case1 unseen => exact ⟨0, _, .none _, rfl⟩
  | case2 unseen stack => exact ⟨0, _, .none _, if_pos rfl⟩
  | case3 unseen key stack hne hmem ih =>
    have keep : ∀ k, k ∈ seen ∨ k ∈ unseen → k ∈ key :: seen ∨ k ∈ unseen.erase key := by
      rintro k (hk | hk)
      · exact .inl (List.mem_cons_of_mem _ hk)
      · by_cases he : k = key
        · exact .inl (he ▸ List.mem_cons_self)
        · exact .inr ((List.mem_erase_of_ne he).2 hk)
    obtain ⟨n, s, hturns, hanswer⟩ := ih (key :: seen) {
      nodup := h.nodup.erase key
      disjoint := fun k hk => List.not_mem_cons_of_ne_of_not_mem (h.nodup.mem_erase_iff.1 hk).1
        (h.disjoint k (List.mem_of_mem_erase hk))
      stacked := fun k hk => (List.mem_append.1 hk).elim
        (fun hk => keep k (h.ahead key k (mem_consumers.1 hk)))
        (fun hk => keep k (h.stacked k (List.mem_cons_of_mem _ hk)))
      ahead := fun k o hj => keep o (h.ahead k o hj) }
    exact ⟨n + 1, s, .more (.look hne (h.disjoint key hmem) (.refl _)) hturns, hanswer⟩
  | case4 unseen key stack hne hmem ih =>
    have hseen : key ∈ seen := (h.stacked key List.mem_cons_self).resolve_right hmem
    obtain ⟨n, s, hturns, hanswer⟩ :=
      ih seen { h with stacked := fun k hk => h.stacked k (List.mem_cons_of_mem _ hk) }
    exact ⟨n + 1, s, .more (.drop hne hseen) hturns, hanswer⟩

/-- The search finds the target exactly if the edges lead to it. -/
theorem reaches_iff :
    reaches edges start target = true ↔ ReflTransGen (Joins edges) start target := by
  obtain ⟨n, s, hturns, hanswer⟩ :=
    @turns_of_search edges target [] _ [start] (sorted_start edges start)
  exact (hturns.fair (Sweep.fair_start edges start target)).answer_iff hanswer

/-- Whatever the edges are, and in whichever order consumers are put on the stack, a search that
starts with one key has an answer within one turn more than there are edges.  It goes on as long as
it has none; the answer is that of `reaches`, and whether the edges lead from the start to the
target, in no step or more. -/
theorem reaches_in_turns (edges : List (String × String)) (start target : String) :
    (reaches edges start target = true ↔ ReflTransGen (Joins edges) start target) ∧
    (∃ n s, Turns edges target n { stack := [start] } s ∧
      s.answer? target = some (reaches edges start target)) ∧
    ∀ n s, Turns edges target n { stack := [start] } s →
      n ≤ edges.length + 1 ∧
      (s.answer? target = none ↔ ∃ s', Turn edges target s s') ∧
      ∀ b, s.answer? target = some b → b = reaches edges start target := by
  refine ⟨reaches_iff, turns_of_search [] _ [start] (sorted_start edges start),
    fun n s hturns => ⟨?_, ⟨exists_turn, fun ⟨s', h⟩ => h.answer?_eq_none⟩, fun b hb => ?_⟩⟩
  · have hleft := hturns.left_eq
    have hall : Sweep.left edges { stack := [start] } = edges.length + 1 := by
      simp [Sweep.left]
    omega
  · have hfair := hturns.fair (Sweep.fair_start edges start target)
    exact Bool.eq_iff_iff.2 ((hfair.answer_iff hb).trans reaches_iff.symm)

end

end Schedule

end Intake
