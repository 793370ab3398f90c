import Mathlib.Logic.Function.Basic
import VmManager.Encoding.Hex

/-! The nonce store of the attestation handshake. A nonce belongs to one VM, is valid for the time to
live of the store and is accepted at most once. Times are nanoseconds of the process clock. -/
namespace VmManager.Nonce
open Encoding Function List
variable {vmID vm : String} {s : Store} {now : Nat} {nonce n : Text}

def defaultTTL : Nat := 5 * 60 * 1000000000
def defaultMaxPerVM : Nat := 8

abbrev Issued := List (Text × Nat)

structure Store where
  ttl : Nat := defaultTTL
  maxPerVM : Nat := defaultMaxPerVM
  byVM : String → Issued := fun _ => []

def delete (issued : Issued) (nonce : Text) : Issued := issued.filter fun e => e.1 != nonce

/-- The nonce with the earliest issue time; the loop keeps the first of several equal ones. -/
def oldest : Issued → Text
  | [] => []
  | e :: rest => (rest.foldl (fun best x => if x.2 < best.2 then x else best) e).1

/-- The loop of `issue` that deletes the oldest nonce while the VM has its maximum. The last argument
bounds the rounds; every round deletes an entry. -/
def makeRoom (maxPerVM : Nat) : Nat → Issued → Issued
  | 0, issued => issued
  | rounds + 1, issued =>
    if maxPerVM ≤ issued.length then makeRoom maxPerVM rounds (delete issued (oldest issued))
    else issued

namespace Store

def sweep (s : Store) (now : Nat) : Store :=
  { s with byVM := fun vm => (s.byVM vm).filter fun e => decide (now - e.2 ≤ s.ttl) }

/-- `nonce` is what the random source gave: 32 bytes, in hexadecimal. -/
def issue (s : Store) (now : Nat) (vmID : String) (nonce : Text) : Store :=
  let s := s.sweep now
  let issued := makeRoom s.maxPerVM (s.byVM vmID).length (s.byVM vmID)
  { s with byVM := update s.byVM vmID ((nonce, now) :: delete issued nonce) }

def consume (s : Store) (now : Nat) (vmID : String) (nonce : Text) : Bool × Store :=
  let issued := (s.byVM vmID).lookup nonce
  let s' := { s with byVM := update s.byVM vmID (delete (s.byVM vmID) nonce) }
  (issued.any fun t => decide (now - t ≤ s.ttl), s'.sweep now)

def forget (s : Store) (vmID : String) : Store :=
  { s with byVM := update s.byVM vmID [] }

def Consumable (s : Store) (now : Nat) (vmID : String) (nonce : Text) : Prop :=
  ∃ issued, (s.byVM vmID).lookup nonce = some issued ∧ now - issued ≤ s.ttl

theorem consume_eq_true_iff (s : Store) (now : Nat) (vmID : String) (nonce : Text) :
    (s.consume now vmID nonce).1 = true ↔ s.Consumable now vmID nonce := by
  simp [consume, Consumable, Option.any_eq_true]

end Store

theorem mem_delete {issued : Issued} {nonce : Text} {e : Text × Nat} :
    e ∈ delete issued nonce ↔ e ∈ issued ∧ e.1 ≠ nonce := by
  simp [delete]

theorem makeRoom_subset (maxPerVM rounds : Nat) (issued : Issued) :
    makeRoom maxPerVM rounds issued ⊆ issued := by
  induction rounds generalizing issued with
  | zero => exact Subset.refl _
  | succ rounds ih =>
    simp only [makeRoom]
    split
    · exact Subset.trans (ih _) fun e he => (mem_delete.1 he).1
    · exact Subset.refl _

namespace Store

def outstanding (s : Store) (vmID : String) : List Text := (s.byVM vmID).map Prod.fst

theorem mem_outstanding_of_consumable {vmID : String} {nonce : Text}
    (h : s.Consumable now vmID nonce) : nonce ∈ s.outstanding vmID := by
  obtain ⟨t, ht, -⟩ := h
  obtain ⟨l₁, l₂, hl, -⟩ := lookup_eq_some_iff.1 ht
  simp [outstanding, hl]

theorem outstanding_sweep_subset (s : Store) (now : Nat) (vmID : String) :
    (s.sweep now).outstanding vmID ⊆ s.outstanding vmID := by
  intro n hn
  simp only [outstanding, sweep, mem_map, mem_filter] at hn ⊢
  obtain ⟨e, ⟨he, -⟩, rfl⟩ := hn
  exact ⟨e, he, rfl⟩

theorem outstanding_issue (h : n ∈ (s.issue now vmID nonce).outstanding vm) :
    n ∈ s.outstanding vm ∨ (vm = vmID ∧ n = nonce) := by
  by_cases hvm : vm = vmID
  · subst hvm
    simp only [issue, outstanding, update_self, map_cons, mem_cons] at h
    rcases h with rfl | h
    · exact .inr ⟨rfl, rfl⟩
    · obtain ⟨e, he, rfl⟩ := mem_map.1 h
      have := makeRoom_subset _ _ _ (mem_delete.1 he).1
      exact .inl (outstanding_sweep_subset s now vm (mem_map_of_mem this))
  · simp only [issue, outstanding, update_of_ne hvm] at h
    exact .inl (outstanding_sweep_subset s now vm h)

theorem outstanding_consume (h : n ∈ (s.consume now vmID nonce).2.outstanding vm) : n ∈ s.outstanding vm := by
  have h := outstanding_sweep_subset _ now vm h
  by_cases hvm : vm = vmID
  · subst hvm
    simp only [outstanding, update_self] at h ⊢
    obtain ⟨e, he, rfl⟩ := mem_map.1 h
    exact mem_map_of_mem (mem_delete.1 he).1
  · simpa only [outstanding, update_of_ne hvm] using h

theorem outstanding_forget {n : Text} (h : n ∈ (s.forget vmID).outstanding vm) : n ∈ s.outstanding vm := by
  by_cases hvm : vm = vmID
  · simp [outstanding, forget, hvm] at h
  · simpa only [outstanding, forget, update_of_ne hvm] using h

end Store

end VmManager.Nonce
