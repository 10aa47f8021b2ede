import Mathlib.Data.Fintype.EquivFin
import Mathlib.Data.Fintype.Sets
import Mathlib.Order.WellFounded
import Intake.Proofs.Schedule.Reachability
import Intake.Proofs.Table
/-!
# The order of a schedule

Without a cycle among the edges the reduction never runs out of ready keys:

    Outstanding edges pending → (∀ key, ¬ TransGen (Joins edges) key key) →
      ∃ keys, settle pending = .ok keys ∧ keys.Perm (names pending) ∧ ...

Acyclicity is used once, in `exists_no_producer`: on finitely many keys the relation "leads to"
is well-founded, and a least key waits for nothing.
-/

namespace Intake

namespace Schedule

open Relation

/-- Among finitely many keys without a cycle some key has no producer. -/
theorem exists_no_producer {edges : List (String × String)}
    (acyclic : ∀ key, ¬ TransGen (Joins edges) key key) (keys : List String)
    (hne : keys ≠ []) :
    ∃ key ∈ keys, ∀ other ∈ keys, ¬ Joins edges other key := by
  let before : {k // k ∈ keys} → {k // k ∈ keys} → Prop :=
    fun a b => TransGen (Joins edges) a.1 b.1
  have : IsTrans _ before := ⟨fun _ _ _ hab hbc => hab.trans hbc⟩
  have : Std.Irrefl before := ⟨fun a ha => acyclic a.1 ha⟩
  have wf : WellFounded before := Finite.wellFounded_of_trans_of_irrefl before
  obtain ⟨first, hfirst⟩ := List.exists_mem_of_ne_nil keys hne
  obtain ⟨least, -, hleast⟩ := wf.has_min Set.univ ⟨⟨first, hfirst⟩, trivial⟩
  exact ⟨least.1, least.2, fun other hother hj => hleast ⟨other, hother⟩ trivial (.single hj)⟩

/-- The keys that are left, each with its producers that are left. -/
structure Outstanding (edges : List (String × String)) (pending : Table (List String)) :
    Prop where
  nodup : (Table.names pending).Nodup
  producers : ∀ entry ∈ pending, entry.2.Nodup ∧
    ∀ other, other ∈ entry.2 ↔ Joins edges other entry.1 ∧ other ∈ Table.names pending

theorem names_take (key : String) (pending : Table (List String)) :
    Table.names (take key pending) = (Table.names pending).erase key := by
  induction pending with
  | nil => rfl
  | cons entry rest ih =>
    by_cases h : entry.1 = key
    · simp [take, Table.names, h]
    · simp only [take, Table.names, List.map_map] at ih
      simp [take, Table.names, h]
      exact ih

namespace Outstanding

variable {edges : List (String × String)} {pending : Table (List String)}

theorem take (h : Outstanding edges pending) (key : String) :
    Outstanding edges (take key pending) := by
  refine ⟨?_, ?_⟩
  · rw [names_take]
    exact h.nodup.erase key
  · intro entry hentry
    obtain ⟨old, hold, rfl⟩ := List.mem_map.1 hentry
    obtain ⟨hnodup, hiff⟩ := h.producers old (List.mem_of_mem_eraseP hold)
    refine ⟨hnodup.erase key, fun other => ?_⟩
    rw [hnodup.mem_erase_iff, hiff, names_take, h.nodup.mem_erase_iff]
    tauto

theorem exists_ready (h : Outstanding edges pending)
    (acyclic : ∀ key, ¬ TransGen (Joins edges) key key) (hne : pending ≠ []) :
    ∃ entry ∈ pending, entry.2 = [] := by
  obtain ⟨key, hkey, hmin⟩ := exists_no_producer acyclic (Table.names pending)
    (by simpa [Table.names] using hne)
  obtain ⟨entry, hentry, rfl⟩ := List.mem_map.1 hkey
  refine ⟨entry, hentry, List.eq_nil_iff_forall_not_mem.2 fun other hother => ?_⟩
  obtain ⟨hj, hmem⟩ := ((h.producers entry hentry).2 other).1 hother
  exact hmin other hmem hj

/-- Without a cycle the reduction takes every key, each after its producers. -/
theorem settle_eq (h : Outstanding edges pending)
    (acyclic : ∀ key, ¬ TransGen (Joins edges) key key) :
    ∃ keys, settle pending = .ok keys ∧ keys.Perm (Table.names pending) ∧
      ∀ p c, Joins edges p c → p ∈ Table.names pending → c ∈ Table.names pending →
        [p, c].Sublist keys := by
  fun_induction settle pending with
  | case1 pending key producers hfind ih =>
    obtain ⟨keys, hkeys, hperm, hbefore⟩ := ih (h.take key)
    have hmem := List.mem_of_find?_eq_some hfind
    have hempty : producers = [] := by simpa using List.find?_some hfind
    have hkey : key ∈ Table.names pending := List.mem_map.2 ⟨_, hmem, rfl⟩
    rw [names_take] at hperm hbefore
    refine ⟨key :: keys, by rw [hkeys]; rfl, ?_, ?_⟩
    · exact (hperm.cons key).trans (List.perm_cons_erase hkey).symm
    · intro p c hj hp hc
      have hck : c ≠ key := by
        rintro rfl
        have := ((h.producers _ hmem).2 p).2 ⟨hj, hp⟩
        simp [hempty] at this
      have hc' : c ∈ (Table.names pending).erase key := (List.mem_erase_of_ne hck).2 hc
      by_cases hpk : p = key
      · subst hpk
        exact List.cons_sublist_cons.2 (List.singleton_sublist.2 (hperm.mem_iff.2 hc'))
      · exact (hbefore p c hj ((List.mem_erase_of_ne hpk).2 hp) hc').cons key
  | case2 pending hfind hempty =>
    have : pending = [] := by simpa using hempty
    subst this
    exact ⟨[], rfl, .refl _, fun _ _ _ hp => absurd hp List.not_mem_nil⟩
  | case3 pending hfind hne =>
    obtain ⟨entry, hentry, hnil⟩ := h.exists_ready acyclic (by simpa using hne)
    have := List.find?_eq_none.1 hfind entry hentry
    simp [hnil] at this

end Outstanding

end Schedule

end Intake
