import Mathlib.Data.List.Chain
import VmManager.Data.Sorting

/-! What pattern-defeating quicksort, the algorithm of `sort.Slice`, does to a slice, with any comparison:
`sort.Slice` promises nothing for one that is not a weak order. The swaps and the choice of the pivots are
left open; the comparisons behind every branch are kept. Where a comparison goes by a rank first, the result
is in the order of the ranks, however it treats elements of one rank. -/
namespace VmManager
open List
variable {α : Type} {x y : α}

/-- Below `r` there is a binary heap: no parent is less than a child. -/
inductive Heap (less : α → α → Bool) : α → List α → Prop where
  | node {r : α} {rest : List α} (kids : List (α × List α))
      (hperm : rest.Perm (kids.flatMap fun k => k.1 :: k.2))
      (hless : ∀ k ∈ kids, less r k.1 = false) (hkids : ∀ k ∈ kids, Heap less k.1 k.2) : Heap less r rest

/-- Heapsort: the root of the heap goes to the end, and what is left becomes a heap again. -/
inductive HeapSorts (less : α → α → Bool) : List α → List α → Prop where
  | nil : HeapSorts less [] []
  | root {l rest l' : List α} {r : α} (hperm : l.Perm (r :: rest)) (hheap : Heap less r rest)
      (hrest : HeapSorts less rest l') : HeapSorts less l (l' ++ [r])

def insertFront (less : α → α → Bool) (x : α) : List α → List α
  | [] => [x]
  | y :: ys => if less y x then y :: insertFront less x ys else x :: y :: ys

/-- One range of the slice and what is in front of it, before and after the range is sorted. -/
inductive PdqSorts (less : α → α → Bool) : List α → List α → List α → List α → Prop where
  | insertion (front l : List α) : PdqSorts less front l front (insertionSlice less l)
  | heap {front l l' : List α} (h : HeapSorts less l l') : PdqSorts less front l front l'
  /-- The range is found to be sorted. -/
  | run {front l : List α} (h : l.IsChain fun a b => less a b = true ∨ less b a = false) : PdqSorts less front l front l
  /-- The range is reversed, or a few of its elements are swapped. -/
  | reorder {front l l₁ front' l' : List α} (hperm : l₁.Perm l) (h : PdqSorts less front l₁ front' l') :
      PdqSorts less front l front' l'
  /-- Of two neighbours in the wrong order, `partialInsertionSort` shifts the less one to the left, which ends
  only at the beginning of the slice, and the other one to the right. -/
  | shift {front pre post front₁ pre₁ front' l' : List α} {y z : α} (hless : less y z = true)
      (hlen : front₁.length = front.length)
      (hleft : insertBack less y (pre.reverse ++ front.reverse) = pre₁.reverse ++ front₁.reverse)
      (h : PdqSorts less front₁ (pre₁ ++ insertFront less z post) front' l') :
      PdqSorts less front (pre ++ z :: y :: post) front' l'
  /-- What is less than the pivot, the pivot, and the others; the shorter side is sorted first. -/
  | leftFirst {front left right front₁ left₁ front' mid right' : List α} {pivot : α}
      (hl : ∀ x ∈ left, less x pivot = true) (hr : ∀ x ∈ right, less x pivot = false)
      (hleft : PdqSorts less front left front₁ left₁) (hlen : front'.length = front₁.length)
      (hright : PdqSorts less (front₁ ++ (left₁ ++ [pivot])) right (front' ++ mid) right') :
      PdqSorts less front (left ++ pivot :: right) front' (mid ++ right')
  | rightFirst {front left right front₁ left₁ front' left' right' : List α} {pivot pivot₁ : α}
      (hl : ∀ x ∈ left, less x pivot = true) (hr : ∀ x ∈ right, less x pivot = false)
      (hlen : front₁.length = front.length) (hlen' : left₁.length = left.length)
      (hright : PdqSorts less (front ++ (left ++ [pivot])) right (front₁ ++ (left₁ ++ [pivot₁])) right')
      (hleft : PdqSorts less front₁ left₁ front' left') :
      PdqSorts less front (left ++ pivot :: right) front' (left' ++ pivot₁ :: right')
  /-- The pivot is not more than the element in front: what is not more than the pivot stays where it is. -/
  | partitionEqual {front same rest front' same' rest' : List α} {pred pivot : α} (hpred : pred ∈ front.getLast?)
      (hpivot : pivot ∈ same) (hle : less pred pivot = false) (hs : ∀ x ∈ same, less pivot x = false)
      (hr : ∀ x ∈ rest, less pivot x = true) (hlen : front'.length = front.length)
      (hrest : PdqSorts less (front ++ same) rest (front' ++ same') rest') :
      PdqSorts less front (same ++ rest) front' (same' ++ rest')

def SortSlice.IsPdq (S : SortSlice) : Prop :=
  ∀ {α : Type} (less : α → α → Bool) (l : List α), PdqSorts less [] l [] (S.sort less l)

theorem SortSlice.insertion_isPdq : SortSlice.insertion.IsPdq := fun _ l => .insertion [] l

/-- The comparison goes by the rank where two elements differ in it. -/
structure Ranks {β : Type} [LinearOrder β] (less : α → α → Bool) (rank : α → β) : Prop where
  lt : ∀ x y, rank x < rank y → less x y = true
  gt : ∀ x y, rank x < rank y → less y x = false

section ranked
variable {β : Type} [LinearOrder β] {less : α → α → Bool} {rank : α → β} {l l' : List α}

theorem Ranks.le_of_less (h : Ranks less rank) (hxy : less x y = true) : rank x ≤ rank y := by
  by_contra hlt
  cases hxy.symm.trans (h.gt y x (not_le.1 hlt))

theorem Ranks.le_of_not_less (h : Ranks less rank) (hxy : less x y = false) :
    rank y ≤ rank x := by
  by_contra hlt
  cases hxy.symm.trans (h.lt x y (not_le.1 hlt))

theorem insertBack_ranked (h : Ranks less rank) (x : α) {back : List α}
    (hs : back.Pairwise fun a b => rank b ≤ rank a) :
    (insertBack less x back).Pairwise fun a b => rank b ≤ rank a :=
  insertBack_pairwise hs (fun _ _ hxy => h.le_of_less hxy) fun _ _ hxy =>
    ⟨h.le_of_not_less hxy, fun _ _ hyz => hyz.trans (h.le_of_not_less hxy)⟩

theorem insertionSlice_ranked (h : Ranks less rank) (l : List α) :
    (insertionSlice less l).Pairwise fun a b => rank a ≤ rank b := by
  have hback : ∀ back : List α, back.Pairwise (fun a b => rank b ≤ rank a) →
      (l.foldl (fun back x => insertBack less x back) back).Pairwise fun a b => rank b ≤ rank a := by
    induction l with
    | nil => exact fun back hs => hs
    | cons x l ih => exact fun back hs => ih _ (insertBack_ranked h x hs)
  exact pairwise_reverse.2 (hback [] .nil)

theorem Heap.ranked (h : Ranks less rank) {r : α} {rest : List α} (hheap : Heap less r rest) :
    ∀ x ∈ rest, rank x ≤ rank r := by
  induction hheap with
  | node kids hperm hless _ ih =>
    intro x hx
    obtain ⟨k, hk, hxk⟩ := mem_flatMap.1 (hperm.mem_iff.1 hx)
    have hroot : rank k.1 ≤ rank _ := h.le_of_not_less (hless k hk)
    rcases mem_cons.1 hxk with rfl | hxk
    · exact hroot
    · exact (ih k hk x hxk).trans hroot

theorem HeapSorts.perm (h : HeapSorts less l l') : l'.Perm l := by
  induction h with
  | nil => exact .refl _
  | root hperm _ _ ih =>
    exact (perm_append_singleton _ _).trans ((ih.cons _).trans hperm.symm)

theorem HeapSorts.ranked (hr : Ranks less rank) (h : HeapSorts less l l') :
    l'.Pairwise fun a b => rank a ≤ rank b := by
  induction h with
  | nil => exact .nil
  | root _ hheap hrest ih =>
    refine pairwise_append.2 ⟨ih, pairwise_singleton _ _, fun x hx y hy => ?_⟩
    rw [mem_singleton.1 hy]
    exact hheap.ranked hr x (hrest.perm.mem_iff.1 hx)

theorem insertFront_perm (x : α) (l : List α) : (insertFront less x l).Perm (x :: l) := by
  induction l with
  | nil => exact .refl _
  | cons y ys ih =>
    unfold insertFront
    split
    · exact (ih.cons y).trans (.swap x y ys)
    · exact .refl _

theorem insertBack_front (h : Ranks less rank) (back front : List α) (hle : ∀ z ∈ front, rank z ≤ rank y) :
    ∃ ranks, (insertBack less y (back ++ front)).map rank = ranks ++ front.map rank ∧
      ranks.Perm (rank y :: back.map rank) := by
  induction back with
  | nil =>
    refine ⟨[rank y], ?_, .refl _⟩
    induction front with
    | nil => rfl
    | cons z front ih =>
      rw [nil_append] at ih ⊢
      unfold insertBack
      split
      · rename_i hlt
        have hz : rank z = rank y := (hle z mem_cons_self).antisymm (h.le_of_less hlt)
        simp [ih (forall_mem_cons.1 hle).2, hz]
      · rfl
  | cons z back ih =>
    rw [cons_append]
    unfold insertBack
    split
    · obtain ⟨ranks, heq, hperm⟩ := ih
      exact ⟨rank z :: ranks, by simp [heq], (hperm.cons _).trans (.swap _ _ _)⟩
    · exact ⟨rank y :: rank z :: back.map rank, by simp, .refl _⟩

structure RankSorted (rank : α → β) (front l front' l' : List α) : Prop where
  front : front'.map rank = front.map rank
  perm : (l'.map rank).Perm (l.map rank)
  sorted : (l'.map rank).Pairwise (· ≤ ·)

theorem RankSorted.of_perm {front : List α} (hperm : l'.Perm l) (h : l'.Pairwise fun a b => rank a ≤ rank b) :
    RankSorted rank front l front l' := ⟨rfl, hperm.map rank, pairwise_map.2 h⟩

theorem pairwise_around {a b : List β} {p : β} (ha : a.Pairwise (· ≤ ·)) (hb : b.Pairwise (· ≤ ·))
    (hlow : ∀ x ∈ a, x ≤ p) (hhigh : ∀ x ∈ b, p ≤ x) : (a ++ p :: b).Pairwise (· ≤ ·) := by
  refine pairwise_append.2 ⟨ha, pairwise_cons.2 ⟨hhigh, hb⟩, fun x hx y hy => ?_⟩
  rcases mem_cons.1 hy with rfl | hy
  · exact hlow x hx
  · exact (hlow x hx).trans (hhigh y hy)

theorem Ranks.below (h : Ranks less rank) (hl : ∀ x ∈ l, less x y = true) : ∀ b ∈ l.map rank, b ≤ rank y :=
  forall_mem_map.2 fun x hx => h.le_of_less (hl x hx)

theorem Ranks.above (h : Ranks less rank) (hl : ∀ x ∈ l, less x y = false) : ∀ b ∈ l.map rank, rank y ≤ b :=
  forall_mem_map.2 fun x hx => h.le_of_not_less (hl x hx)

theorem le_behind {front low high : List β} {p : β} (hfront : ∀ a ∈ front, ∀ b ∈ high, a ≤ b)
    (hlow : ∀ a ∈ low, a ≤ p) (hhigh : ∀ b ∈ high, p ≤ b) : ∀ a ∈ front ++ (low ++ [p]), ∀ b ∈ high, a ≤ b := by
  intro a ha b hb
  simp only [mem_append, mem_singleton] at ha
  rcases ha with ha | ha | rfl
  · exact hfront a ha b hb
  · exact (hlow a ha).trans (hhigh b hb)
  · exact hhigh b hb

/-- The two sides are sorted apart, each with what is in front of it. -/
theorem RankSorted.around {front front' left left' right right' f f' g g' : List α} {pivot : α}
    (hl : RankSorted rank f left f' left') (hr : RankSorted rank g right g' right')
    (hlow : ∀ b ∈ left.map rank, b ≤ rank pivot) (hhigh : ∀ b ∈ right.map rank, rank pivot ≤ b)
    (hranks : l'.map rank = left'.map rank ++ rank pivot :: right'.map rank)
    (hfront : front'.map rank = front.map rank) : RankSorted rank front (left ++ pivot :: right) front' l' where
  front := hfront
  perm := by
    rw [hranks, map_append, map_cons]
    exact hl.perm.append (hr.perm.cons _)
  sorted := by
    rw [hranks]
    exact pairwise_around hl.sorted hr.sorted (fun b hb => hlow b (hl.perm.mem_iff.1 hb)) fun b hb =>
      hhigh b (hr.perm.mem_iff.1 hb)

theorem Ranks.shift {front pre post front₁ pre₁ : List α} {z : α} (hr : Ranks less rank)
    (hlen : front₁.length = front.length)
    (hleft : insertBack less y (pre.reverse ++ front.reverse) = pre₁.reverse ++ front₁.reverse)
    (hle : ∀ u ∈ front, rank u ≤ rank y) : front₁.map rank = front.map rank ∧
      ((pre₁ ++ insertFront less z post).map rank).Perm ((pre ++ z :: y :: post).map rank) := by
  obtain ⟨ranks, heq, hranks⟩ := insertBack_front hr pre.reverse front.reverse fun u hu => hle u (mem_reverse.1 hu)
  rw [hleft, map_append] at heq
  obtain ⟨hpre, hfront⟩ := append_inj' heq (by simp [hlen])
  refine ⟨by simpa using hfront, ?_⟩
  have hpre : (pre₁.map rank).Perm (rank y :: pre.map rank) := by
    rw [← hpre, map_reverse, map_reverse] at hranks
    exact (reverse_perm _).symm.trans (hranks.trans ((reverse_perm _).cons _))
  rw [map_append, map_append]
  refine (hpre.append ((insertFront_perm z post).map rank)).trans ?_
  exact perm_middle.symm.trans ((Perm.swap _ _ _).append_left _)

theorem PdqSorts.ranked {front front' : List α} (hr : Ranks less rank) (h : PdqSorts less front l front' l')
    (hle : ∀ a ∈ front.map rank, ∀ b ∈ l.map rank, a ≤ b) : RankSorted rank front l front' l' := by
  induction h with
  | insertion front l => exact .of_perm (insertionSlice_spec less l).1 (insertionSlice_ranked hr l)
  | heap h => exact .of_perm h.perm (h.ranked hr)
  | run h =>
    exact .of_perm (.refl _) (isChain_iff_pairwise.1 (h.imp fun {a b} hab => hab.elim hr.le_of_less hr.le_of_not_less))
  | reorder hperm _ ih =>
    obtain ⟨hfront, hsame, hsorted⟩ := ih fun a ha b hb => hle a ha b ((hperm.map rank).mem_iff.1 hb)
    exact ⟨hfront, hsame.trans (hperm.map rank), hsorted⟩
  | shift _ hlen hleft _ ih =>
    obtain ⟨hfront, hsame⟩ := hr.shift hlen hleft fun u hu =>
      hle _ (mem_map_of_mem hu) _ (mem_map_of_mem (by simp))
    obtain ⟨hf, hp, hs⟩ := ih fun a ha b hb => hle a (hfront ▸ ha) b (hsame.mem_iff.1 hb)
    exact ⟨hf.trans hfront, hp.trans hsame, hs⟩
  | leftFirst hl hright _ hlen _ ihl ihr =>
    simp only [map_append, map_cons, mem_append, mem_cons] at hle
    have hleft := ihl fun a ha b hb => hle a ha b (.inl hb)
    have hbehind := ihr <| by
      rw [map_append, map_append, hleft.front]
      exact le_behind (fun a ha b hb => hle a ha b (.inr (.inr hb)))
        (fun b hb => hr.below hl b (hleft.perm.mem_iff.1 hb)) (hr.above hright)
    obtain ⟨hf, hmid⟩ := append_inj (by simpa using hbehind.front) (by simp [hlen])
    exact .around hleft hbehind (hr.below hl) (hr.above hright) (by simp [hmid]) (hf.trans hleft.front)
  | rightFirst hl hright hlen _ _ _ ihr ihl =>
    simp only [map_append, map_cons, mem_append, mem_cons] at hle
    have hbehind := ihr <| by
      rw [map_append, map_append]
      exact le_behind (fun a ha b hb => hle a ha b (.inr (.inr hb))) (hr.below hl) (hr.above hright)
    obtain ⟨hf, hmid⟩ := append_inj (by simpa using hbehind.front) (by simp [hlen])
    obtain ⟨hsame, hpivot⟩ := append_singleton_inj.1 hmid
    have hleft := ihl fun a ha b hb => hle a (hf ▸ ha) b (.inl (hsame ▸ hb))
    exact .around ⟨hleft.front, hsame ▸ hleft.perm, hleft.sorted⟩ hbehind (hr.below hl) (hr.above hright)
      (by simp [hpivot]) (hleft.front.trans hf)
  | @partitionEqual front same rest front' same' rest' pred pivot hpred hpivot hpp hs hrest hlen _ ih =>
    -- Everything that stays has the rank of the pivot.
    simp only [map_append, mem_append] at hle
    have hlow : ∀ a ∈ same.map rank, rank pivot ≤ a := fun a ha =>
      (hr.le_of_not_less hpp).trans (hle _ (mem_map_of_mem (mem_of_getLast? hpred)) a (.inl ha))
    have hhigh : ∀ a ∈ same.map rank, a ≤ rank pivot := forall_mem_map.2 fun x hx => hr.le_of_not_less (hs x hx)
    have hafter : ∀ b ∈ rest.map rank, rank pivot ≤ b := forall_mem_map.2 fun x hx => hr.le_of_less (hrest x hx)
    obtain ⟨hF, hperm, hsorted⟩ := ih fun a ha b hb => by
      simp only [map_append, mem_append] at ha
      exact ha.elim (fun ha => hle a ha b (.inr hb)) fun ha => (hhigh a ha).trans (hafter b hb)
    rw [map_append, map_append] at hF
    obtain ⟨hf, hsame⟩ := append_inj hF (by simp [hlen])
    refine ⟨hf, ?_, ?_⟩
    · simpa [hsame] using hperm.append_left (same.map rank)
    · rw [map_append, hsame]
      refine pairwise_append.2 ⟨?_, hsorted, fun a ha b hb => ?_⟩
      · exact pairwise_of_forall_mem_list fun a ha b hb => (hhigh a ha).trans (hlow b hb)
      · exact (hhigh a ha).trans (hafter b (hperm.mem_iff.1 hb))

end ranked

end VmManager
