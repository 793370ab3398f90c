import Mathlib.Data.List.AList
import Mathlib.Data.List.Sort

/-! Go maps: finite, with at most one value for a key, and without an order anybody may rely on. -/
namespace VmManager
open List

abbrev GoMap (κ ν : Type) := AList fun _ : κ => ν

namespace GoMap
variable {κ ν : Type} [DecidableEq κ]

def get (m : GoMap κ ν) (k : κ) : Option ν := m.lookup k

@[simp] theorem get_empty (k : κ) : get (∅ : GoMap κ ν) k = none := AList.lookup_empty k

theorem get_empty_ne {k : κ} {v : ν} : get (∅ : GoMap κ ν) k ≠ some v := nofun

theorem get_insert (m : GoMap κ ν) (k k' : κ) (v : ν) :
    get (m.insert k v) k' = if k' = k then some v else get m k' := by
  split
  · subst k'; exact AList.lookup_insert m
  · exact AList.lookup_insert_ne ‹_›

theorem get_erase (m : GoMap κ ν) (k k' : κ) :
    get (m.erase k) k' = if k' = k then none else get m k' := by
  split
  · subst k'; exact AList.lookup_erase k m
  · exact AList.lookup_erase_ne ‹_›

theorem get_eq_some_iff {m : GoMap κ ν} {k : κ} {v : ν} :
    get m k = some v ↔ (⟨k, v⟩ : Sigma fun _ : κ => ν) ∈ m.entries :=
  AList.mem_lookup_iff

/-- The library's own instance rewrites, and so does not evaluate. -/
instance [DecidableEq ν] : DecidableEq (GoMap κ ν) := fun m m' =>
  decidable_of_iff (m.entries = m'.entries) AList.ext_iff.symm

instance {p : κ → ν → Prop} [∀ k v, Decidable (p k v)] (m : GoMap κ ν) :
    Decidable (∀ k v, m.get k = some v → p k v) :=
  decidable_of_iff (∀ x ∈ m.entries, p x.1 x.2)
    ⟨fun h _ _ hk => h _ (get_eq_some_iff.1 hk), fun h x hx => h x.1 x.2 (get_eq_some_iff.2 hx)⟩

instance [DecidableEq ν] (m : GoMap κ ν) (v : ν) : Decidable (∀ k, m.get k ≠ some v) :=
  decidable_of_iff (∀ k v', m.get k = some v' → v' ≠ v)
    ⟨fun h k hk => h k v hk rfl, fun h k _ hk hv => h k (hv ▸ hk)⟩

theorem get_foldl_insert (f : κ → ν) (ks : List κ) (m : GoMap κ ν) (k : κ) :
    get (ks.foldl (fun m k => m.insert k (f k)) m) k =
      if k ∈ ks then some (f k) else m.get k := by
  induction ks generalizing m with
  | nil => simp
  | cons k' ks ih =>
    rw [foldl_cons, ih, get_insert]
    by_cases hk : k = k'
    · subst hk
      simp
    · simp [hk]

theorem get_foldl_erase (ks : List κ) (m : GoMap κ ν) (k : κ) :
    get (ks.foldl (fun m k => m.erase k) m) k = if k ∈ ks then none else m.get k := by
  induction ks generalizing m with
  | nil => simp
  | cons k' ks ih =>
    rw [foldl_cons, ih, get_erase]
    by_cases hk : k = k'
    · subst hk
      simp
    · simp [hk]

section foldl
variable {α : Type} {f : α → κ} {g : α → ν} {xs : List α} {m : GoMap κ ν} {k : κ}

theorem get_foldl_of_forall_ne (h : ∀ x ∈ xs, f x ≠ k) :
    get (xs.foldl (fun m x => m.insert (f x) (g x)) m) k = m.get k := by
  induction xs generalizing m with
  | nil => rfl
  | cons x xs ih =>
    rw [foldl_cons, ih (forall_mem_cons.1 h).2, get_insert, if_neg (h x mem_cons_self).symm]

theorem get_foldl_cases {v : ν} (h : get (xs.foldl (fun m x => m.insert (f x) (g x)) m) k = some v) :
    m.get k = some v ∨ ∃ x ∈ xs, f x = k ∧ g x = v := by
  induction xs generalizing m with
  | nil => exact .inl h
  | cons y xs ih =>
    rcases ih h with hm | ⟨x, hx, hfx⟩
    · rw [get_insert] at hm
      split at hm
      · exact .inr ⟨y, mem_cons_self, (‹k = f y›).symm, Option.some.inj hm⟩
      · exact .inl hm
    · exact .inr ⟨x, mem_cons_of_mem y hx, hfx⟩

theorem get_foldl_of_exists {v : ν} (hx : ∃ x ∈ xs, f x = k) (hg : ∀ x ∈ xs, f x = k → g x = v) :
    get (xs.foldl (fun m x => m.insert (f x) (g x)) m) k = some v := by
  induction xs generalizing m with
  | nil =>
    obtain ⟨x, hx, -⟩ := hx
    cases hx
  | cons y xs ih =>
    have htail : ∀ z ∈ xs, f z = k → g z = v := (forall_mem_cons.1 hg).2
    rw [foldl_cons]
    by_cases hmem : ∃ z ∈ xs, f z = k
    · exact ih hmem htail
    · have hne : ∀ z ∈ xs, f z ≠ k := fun z hz hfz => hmem ⟨z, hz, hfz⟩
      obtain ⟨x, hx, hfx⟩ := hx
      obtain rfl := (mem_cons.1 hx).resolve_right fun hx => hne x hx hfx
      rw [get_foldl_of_forall_ne hne, get_insert, if_pos hfx.symm, hg x mem_cons_self hfx]

end foldl

theorem mem_keys_iff {m : GoMap κ ν} {k : κ} : k ∈ m.keys ↔ m.get k ≠ none :=
  AList.mem_keys.symm.trans (AList.lookup_isSome.symm.trans Option.isSome_iff_ne_none)

theorem insertionSort_keys {ν' : Type} (r : κ → κ → Prop) [DecidableRel r] [Std.Total r] [IsTrans κ r]
    [Std.Antisymm r] {m : GoMap κ ν} {m' : GoMap κ ν'} (h : ∀ k, m.get k = none ↔ m'.get k = none) :
    m.keys.insertionSort r = m'.keys.insertionSort r := by
  have hkeys : m.keys.Perm m'.keys := by
    refine (perm_ext_iff_of_nodup m.keys_nodup m'.keys_nodup).2 fun k => ?_
    rw [mem_keys_iff, mem_keys_iff, ne_eq, h k]
  exact ((perm_insertionSort r _).trans (hkeys.trans (perm_insertionSort r _).symm)).eq_of_pairwise'
    (pairwise_insertionSort r _) (pairwise_insertionSort r _)

end GoMap

end VmManager
