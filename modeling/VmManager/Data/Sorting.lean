import Mathlib.Data.List.Induction
import Mathlib.Data.List.Lex
import Mathlib.Data.Prod.Lex

/-! Three-way comparison and sorting, as Go's cmp and sort.Slice have them. -/
namespace VmManager
open List

section threeWay
variable {α : Type} [LinearOrder α] {a b c : α}

def threeWay (a b : α) : Int := if a < b then -1 else if b < a then 1 else 0

theorem threeWay_self (a : α) : threeWay a a = 0 := by simp [threeWay]

theorem threeWay_swap (a b : α) : threeWay b a = -threeWay a b := by
  unfold threeWay
  rcases lt_trichotomy a b with h | rfl | h
  · simp [h, h.not_gt]
  · simp
  · simp [h, h.not_gt]

theorem threeWay_eq_zero : threeWay a b = 0 ↔ a = b := by
  unfold threeWay
  rcases lt_trichotomy a b with h | rfl | h
  · simp [h, h.ne]
  · simp
  · simp [h, h.not_gt, h.ne']

theorem threeWay_nonpos : threeWay a b ≤ 0 ↔ a ≤ b := by
  unfold threeWay
  rcases lt_trichotomy a b with h | rfl | h
  · simp [h, h.le]
  · simp
  · simp [h, h.not_gt, h.not_ge]

theorem threeWay_congr {β : Type} [LinearOrder β] {x y : β} (h : a < b ↔ x < y) (h' : b < a ↔ y < x) :
    threeWay a b = threeWay x y := by
  simp only [threeWay, h, h']

theorem threeWay_pair {β : Type} [LinearOrder β] (a a' : α) (b b' : β) : threeWay (toLex (a, b)) (toLex (a', b')) =
      if threeWay a a' = 0 then threeWay b b' else threeWay a a' := by
  by_cases h : a = a'
  · subst h
    rw [if_pos (threeWay_self a)]
    refine threeWay_congr ?_ ?_ <;> rw [Prod.Lex.toLex_lt_toLex] <;> simp
  · rw [if_neg fun h0 => h (threeWay_eq_zero.1 h0)]
    refine threeWay_congr ?_ ?_ <;> rw [Prod.Lex.toLex_lt_toLex]
    · simp [h]
    · simp [Ne.symm h]

end threeWay

section sort
variable {α : Type} {less : α → α → Bool} {l : List α}

structure WeakOrder (less : α → α → Bool) (l : List α) : Prop where
  asymm : ∀ a ∈ l, ∀ b ∈ l, less a b = true → less b a = false
  trans : ∀ a ∈ l, ∀ b ∈ l, ∀ c ∈ l, less b a = false → less c b = false → less c a = false

theorem WeakOrder.subset {l' : List α} (h : WeakOrder less l) (hs : l' ⊆ l) : WeakOrder less l' :=
  ⟨fun a ha b hb => h.asymm a (hs ha) b (hs hb), fun a ha b hb c hc => h.trans a (hs ha) b (hs hb) c (hs hc)⟩

structure SortSlice where
  sort : ∀ {α : Type}, (α → α → Bool) → List α → List α
  perm : ∀ {α : Type} (less : α → α → Bool) (l : List α), (sort less l).Perm l
  sorted : ∀ {α : Type} (less : α → α → Bool) (l : List α), WeakOrder less l →
    (sort less l).Pairwise fun a b => less b a = false

/-- An element moves left past those it is less than; the list has its last element first. -/
def insertBack (less : α → α → Bool) (x : α) : List α → List α
  | [] => [x]
  | y :: ys => if less x y then y :: insertBack less x ys else x :: y :: ys

/-- What `sort.Slice` does with at most twelve elements. -/
def insertionSlice (less : α → α → Bool) (l : List α) : List α :=
  (l.foldl (fun back x => insertBack less x back) []).reverse

theorem insertBack_perm (less : α → α → Bool) (x : α) (back : List α) :
    (insertBack less x back).Perm (x :: back) := by
  induction back with
  | nil => exact .refl _
  | cons y ys ih =>
    unfold insertBack
    split
    · exact (ih.cons y).trans (.swap x y ys)
    · exact .refl _

theorem insertBack_pairwise {R : α → α → Prop} {x : α} {back : List α} (hs : back.Pairwise R)
    (hpass : ∀ y ∈ back, less x y = true → R y x)
    (hstop : ∀ y ∈ back, less x y = false → R x y ∧ ∀ z ∈ back, R y z → R x z) :
    (insertBack less x back).Pairwise R := by
  induction back with
  | nil => exact pairwise_singleton _ _
  | cons y ys ih =>
    obtain ⟨hy, hys⟩ := pairwise_cons.1 hs
    unfold insertBack
    split
    · rename_i hlt
      have hrest : (insertBack less x ys).Pairwise R := by
        refine ih hys (forall_mem_cons.1 hpass).2 fun z hz hxz => ?_
        obtain ⟨hR, htrans⟩ := hstop z (mem_cons_of_mem y hz) hxz
        exact ⟨hR, (forall_mem_cons.1 htrans).2⟩
      refine pairwise_cons.2 ⟨fun z hz => ?_, hrest⟩
      rcases mem_cons.1 ((insertBack_perm less x ys).mem_iff.1 hz) with rfl | hz
      · exact hpass y mem_cons_self hlt
      · exact hy z hz
    · rename_i hlt
      obtain ⟨hR, htrans⟩ := hstop y mem_cons_self (by simpa using hlt)
      refine pairwise_cons.2 ⟨fun z hz => ?_, hs⟩
      rcases mem_cons.1 hz with rfl | hz
      · exact hR
      · exact htrans z (mem_cons_of_mem y hz) (hy z hz)

theorem insertBack_sorted {x : α} {back : List α} (hw : WeakOrder less (x :: back))
    (hs : back.Pairwise fun a b => less a b = false) :
    (insertBack less x back).Pairwise fun a b => less a b = false := by
  refine insertBack_pairwise hs (fun y hy hxy => ?_) fun y hy hxy => ⟨hxy, fun z hz hyz => ?_⟩
  · exact hw.asymm x mem_cons_self y (mem_cons_of_mem x hy) hxy
  · exact hw.trans z (mem_cons_of_mem x hz) y (mem_cons_of_mem x hy) x mem_cons_self hyz hxy

theorem insertionSlice_spec (less : α → α → Bool) (l : List α) : (insertionSlice less l).Perm l ∧ (WeakOrder less l →
      (insertionSlice less l).Pairwise fun a b => less b a = false) := by
  have hback : ∀ l : List α, (l.foldl (fun back x => insertBack less x back) []).Perm l ∧
      (WeakOrder less l → (l.foldl (fun back x => insertBack less x back) []).Pairwise
        fun a b => less a b = false) := by
    intro l
    induction l using reverseRecOn with
    | nil => exact ⟨.refl _, fun _ => .nil⟩
    | append_singleton l x ih =>
      rw [foldl_append]
      have hperm := (insertBack_perm less x _).trans (ih.1.cons x)
      refine ⟨hperm.trans (perm_append_singleton x l).symm, fun hw => ?_⟩
      refine insertBack_sorted (hw.subset fun z hz => ?_) (ih.2 (hw.subset (subset_append_left l [x])))
      rcases mem_cons.1 hz with rfl | hz
      · simp
      · exact mem_append_left _ (ih.1.mem_iff.1 hz)
  exact ⟨(reverse_perm _).trans (hback l).1, fun hw => pairwise_reverse.2 ((hback l).2 hw)⟩

def SortSlice.insertion : SortSlice where
  sort := insertionSlice
  perm less l := (insertionSlice_spec less l).1
  sorted less l := (insertionSlice_spec less l).2

end sort

end VmManager
