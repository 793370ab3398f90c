import Mathlib.Data.List.Nodup
import Mathlib.Data.List.Perm.Subperm

/-! Searching a row of places for the first one that is free. What the search returns is determined by
that, and one place more than there are values taken is enough to find it. -/
namespace VmManager
open List
variable {used : List Nat} {m : Nat}

/-- `r` is the first of `at' 0`, `at' 1`, … that is free, or `full` if all `n` are taken. -/
def FirstFree (taken : Nat → Prop) (at' : Nat → Nat) (n full r : Nat) : Prop :=
  (∃ j < n, r = at' j ∧ ¬ taken (at' j) ∧ ∀ i < j, taken (at' i)) ∨ (r = full ∧ ∀ j < n, taken (at' j))

namespace FirstFree
variable {taken : Nat → Prop} {at' : Nat → Nat} {n full r r' : Nat}

theorem unique (h : FirstFree taken at' n full r) (h' : FirstFree taken at' n full r') : r = r' := by
  rcases h with ⟨j, hj, hr, hfree, hbefore⟩ | ⟨hr, hall⟩
  · rcases h' with ⟨j', hj', hr', hfree', hbefore'⟩ | ⟨hr', hall'⟩
    · have hle : ¬ j < j' := fun hlt => hfree (hbefore' j hlt)
      have hge : ¬ j' < j := fun hlt => hfree' (hbefore j' hlt)
      rw [hr, hr', show j = j' by omega]
    · exact absurd (hall' j hj) hfree
  · rcases h' with ⟨j', hj', hr', hfree', -⟩ | ⟨hr', -⟩
    · exact absurd (hall j' hj') hfree'
    · rw [hr, hr']

theorem congr {taken' : Nat → Prop} (h : FirstFree taken at' n full r)
    (heq : ∀ j < n, taken (at' j) ↔ taken' (at' j)) : FirstFree taken' at' n full r := by
  rcases h with ⟨j, hj, hr, hfree, hbefore⟩ | ⟨hr, hall⟩
  · exact .inl ⟨j, hj, hr, fun ht => hfree ((heq j hj).2 ht), fun i hi => (heq i (by omega)).1 (hbefore i hi)⟩
  · exact .inr ⟨hr, fun j hj => (heq j hj).1 (hall j hj)⟩

theorem of_find (p : Nat → Bool) (hp : ∀ c, p c = true ↔ ¬ taken c) :
    FirstFree taken at' n full ((((range n).map at').find? p).getD full) := by
  rw [find?_map]
  cases hfind : (range n).find? (p ∘ at') with
  | none =>
    refine .inr ⟨rfl, fun j hj => ?_⟩
    have hnot := find?_eq_none.1 hfind j (mem_range.2 hj)
    rw [Function.comp_apply, hp, not_not] at hnot
    exact hnot
  | some j =>
    obtain ⟨hj, hlt, hbefore⟩ := find?_range_eq_some.1 hfind
    refine .inl ⟨j, mem_range.1 hlt, rfl, (hp _).1 hj, fun i hi => ?_⟩
    have hnot := hbefore i hi
    rw [Bool.not_eq_true', Function.comp_apply, ← Bool.not_eq_true, hp, not_not] at hnot
    exact hnot

theorem exists_free (hinj : ∀ i < m, ∀ j < m, at' i = at' j → i = j)
    (hm : used.length < m) : ∃ j < m, at' j ∉ used := by
  by_contra hnone
  have hall : ∀ j < m, at' j ∈ used := fun j hj => by
    by_contra hn
    exact hnone ⟨j, hj, hn⟩
  have hnodup : ((range m).map at').Nodup := Nodup.map_on
    (fun i hi j hj => hinj i (mem_range.1 hi) j (mem_range.1 hj)) nodup_range
  have hsub : (range m).map at' ⊆ used := fun c hc => by
    obtain ⟨j, hj, rfl⟩ := mem_map.1 hc
    exact hall j (mem_range.1 hj)
  have hle := (subperm_of_subset hnodup hsub).length_le
  rw [length_map, length_range] at hle
  omega

theorem of_enough (hinj : ∀ i < n, ∀ j < n, at' i = at' j → i = j)
    (hm : m = min (used.length + 1) n) (h : FirstFree (· ∈ used) at' m full r) :
    FirstFree (· ∈ used) at' n full r := by
  rcases h with ⟨j, hj, hrest⟩ | ⟨hr, hall⟩
  · exact .inl ⟨j, by omega, hrest⟩
  · refine .inr ⟨hr, fun j hj => ?_⟩
    by_cases hlt : used.length < m
    · obtain ⟨i, hi, hfree⟩ := exists_free (m := m) (fun i hi j hj => hinj i (by omega) j (by omega)) hlt
      exact absurd (hall i hi) hfree
    · exact hall j (by omega)

end FirstFree

end VmManager
