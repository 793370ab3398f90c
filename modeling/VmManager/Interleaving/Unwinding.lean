import Mathlib.Data.List.Forall2
import VmManager.Interleaving.Machine

/-! Two runs side by side that make the same moves but for hidden ones. The goroutines of the two runs
correspond in the order in which the common moves started them. A relation between states and one between
programs that hidden moves keep on either side, and equal moves on both, hold at the end; what the first
determines of a state takes the same values one after the other in both runs. -/
namespace VmManager.Interleaving
open List Option
variable {σ ι κ ο ε α : Type}

abbrev Trace (σ ι κ ο ε : Type) := List (Event κ ο ε × Pool σ ι κ ο)

namespace Trace

def pool (s₀ : σ) : Trace σ ι κ ο ε → Pool σ ι κ ο
  | [] => ⟨s₀, []⟩
  | (_, p) :: _ => p

/-- The values of an observation in a run, newest first and without repetitions. -/
def observed [DecidableEq α] (obs : σ → α) (s₀ : σ) : Trace σ ι κ ο ε → List α
  | [] => [obs s₀]
  | (_, p) :: tr =>
    if (observed obs s₀ tr).head? = some (obs p.shared) then observed obs s₀ tr
    else obs p.shared :: observed obs s₀ tr

variable [DecidableEq α] {obs : σ → α} {s₀ : σ} {tr : Trace σ ι κ ο ε} {ev : Event κ ο ε} {q : Pool σ ι κ ο}

theorem head_observed : (observed obs s₀ tr).head? = some (obs (tr.pool s₀).shared) := by
  cases tr with
  | nil => rfl
  | cons x tr =>
    rw [observed]
    split
    · assumption
    · rfl

theorem observed_of_eq (h : obs q.shared = obs (tr.pool s₀).shared) :
    observed obs s₀ ((ev, q) :: tr) = observed obs s₀ tr := by
  rw [observed, head_observed, h, if_pos rfl]

end Trace

inductive Move.Same (R : List (Nat × Nat)) : Move ι κ ε → Move ι κ ε → Prop where
  | go {t t' : Nat} (h : (t, t') ∈ R) (i : ι) : Same R (.go t i) (.go t' i)
  | call (c : κ) : Same R (.call c) (.call c)
  | env (x : ε) : Same R (.env x) (.env x)

/-- Goroutines that a common move started, from numbers `n` and `n'` on and below `m` and `m'`, correspond
in that order. -/
def started (R : List (Nat × Nat)) (n n' m m' : Nat) : List (Nat × Nat) :=
  R ++ (range (min (m - n) (m' - n'))).map fun j => (n + j, n' + j)

theorem mem_started {R : List (Nat × Nat)} {n n' m m' t t' : Nat} : (t, t') ∈ started R n n' m m' ↔
    (t, t') ∈ R ∨ ∃ j, t = n + j ∧ t' = n' + j ∧ t < m ∧ t' < m' := by
  simp only [started, mem_append, List.mem_map, mem_range, Prod.mk.injEq]
  refine or_congr_right ⟨?_, ?_⟩
  · rintro ⟨j, hj, rfl, rfl⟩
    exact ⟨j, rfl, rfl, by omega, by omega⟩
  · rintro ⟨j, rfl, rfl, hm, hm'⟩
    exact ⟨j, by omega, rfl, rfl⟩

namespace Machine

/-- Two runs of the machine that are equal except for hidden events, and which goroutines of the one are
which of the other. -/
inductive Twins (M : Machine σ ι κ ο ε) (K : σ → Event κ ο ε → Prop) (hidden : Event κ ο ε → Bool) (s₀ : σ) :
    Trace σ ι κ ο ε → Trace σ ι κ ο ε → List (Nat × Nat) → Prop where
  | start : Twins M K hidden s₀ [] [] []
  | left {tr tr' R m ev q} (h : Twins M K hidden s₀ tr tr' R) (hm : M.step (tr.pool s₀) m = some (ev, q))
      (hk : K (tr.pool s₀).shared ev) (hev : hidden ev = true) : Twins M K hidden s₀ ((ev, q) :: tr) tr' R
  | right {tr tr' R m ev q} (h : Twins M K hidden s₀ tr tr' R) (hm : M.step (tr'.pool s₀) m = some (ev, q))
      (hk : K (tr'.pool s₀).shared ev) (hev : hidden ev = true) : Twins M K hidden s₀ tr ((ev, q) :: tr') R
  | both {tr tr' R m m' ev ev' q q'} (h : Twins M K hidden s₀ tr tr' R) (hsame : m.Same R m')
      (hm : M.step (tr.pool s₀) m = some (ev, q)) (hm' : M.step (tr'.pool s₀) m' = some (ev', q'))
      (hk : K (tr.pool s₀).shared ev) (hk' : K (tr'.pool s₀).shared ev')
      (hev : hidden ev = false) (hev' : hidden ev' = false) :
      Twins M K hidden s₀ ((ev, q) :: tr) ((ev', q') :: tr')
        (started R (tr.pool s₀).threads.length (tr'.pool s₀).threads.length q.threads.length q'.threads.length)

def Paired (RP : Prog σ ι κ ο → Prog σ ι κ ο → Prop) (R : Nat → Nat → Prop) (l l' : List (Prog σ ι κ ο)) : Prop :=
  ∀ t t', R t t' → ∃ pr pr', l[t]? = some pr ∧ l'[t']? = some pr' ∧ RP pr pr'

def OneToOne (R : Nat → Nat → Prop) : Prop := ∀ t t' u u', R t t' → R u u' → (t = u ↔ t' = u')

section Threads
variable {RP : Prog σ ι κ ο → Prog σ ι κ ο → Prop} {R : Nat → Nat → Prop} {l l' k k' : List (Prog σ ι κ ο)}
  {t t' : Nat} {pr pr' : Prog σ ι κ ο}

theorem OneToOne.symm (h : OneToOne R) : OneToOne fun t t' => R t' t :=
  fun t t' u u' ht hu => (h t' t u' u ht hu).symm

theorem OneToOne.started {P : List (Nat × Nat)} {n n' m m' : Nat} (h : OneToOne fun t t' => (t, t') ∈ P)
    (hlt : ∀ t t', (t, t') ∈ P → t < n ∧ t' < n') : OneToOne fun t t' => (t, t') ∈ started P n n' m m' := by
  intro t t' u u' ht hu
  rcases mem_started.1 ht with ht | ⟨j, rfl, rfl, -⟩
  · rcases mem_started.1 hu with hu | ⟨i, rfl, rfl, -⟩
    · exact h t t' u u' ht hu
    · have hold := hlt t t' ht
      omega
  · rcases mem_started.1 hu with hu | ⟨i, rfl, rfl, -⟩
    · have hold := hlt u u' hu
      omega
    · omega

namespace Paired

theorem symm (hRP : ∀ pr pr', RP pr pr' → RP pr' pr) (h : Paired RP R l l') :
    Paired RP (fun t t' => R t' t) l' l := by
  intro t t' ht
  obtain ⟨pr, pr', hl, hl', hr⟩ := h t' t ht
  exact ⟨pr', pr, hl', hl, hRP pr pr' hr⟩

theorem lt (h : Paired RP R l l') (hR : R t t') : t < l.length ∧ t' < l'.length := by
  obtain ⟨_, _, hl, hl', -⟩ := h t t' hR
  exact ⟨(List.getElem?_eq_some_iff.1 hl).1, (List.getElem?_eq_some_iff.1 hl').1⟩

theorem append_left (h : Paired RP R l l') (k : List (Prog σ ι κ ο)) : Paired RP R (l ++ k) l' := by
  intro t t' hR
  obtain ⟨pr, pr', hl, hl', hr⟩ := h t t' hR
  exact ⟨pr, pr', by rw [getElem?_append_left (h.lt hR).1, hl], hl', hr⟩

theorem append {P : List (Nat × Nat)} (h : Paired RP (fun t t' => (t, t') ∈ P) l l') (hk : Forall₂ RP k k') :
    Paired RP (fun t t' => (t, t') ∈ started P l.length l'.length (l ++ k).length (l' ++ k').length)
      (l ++ k) (l' ++ k') := by
  intro t t' ht
  rcases mem_started.1 ht with hR | ⟨j, rfl, rfl, hlt, hlt'⟩
  · obtain ⟨pr, pr', hl, hl', hr⟩ := h t t' hR
    exact ⟨pr, pr', by rw [getElem?_append_left (h.lt hR).1, hl],
      by rw [getElem?_append_left (h.lt hR).2, hl'], hr⟩
  · rw [length_append, Nat.add_lt_add_iff_left] at hlt hlt'
    exact ⟨k[j], k'[j], by simp [hlt], by simp [hlt'], forall₂_iff_get.1 hk |>.2 j hlt hlt'⟩

theorem set (h : Paired RP R l l') (hone : OneToOne R) (hR : R t t') (hr : RP pr pr') :
    Paired RP R (l.set t pr) (l'.set t' pr') := by
  intro u u' hu
  by_cases htu : t = u
  · have htu' := (hone t t' u u' hR hu).1 htu
    subst htu htu'
    exact ⟨pr, pr', getElem?_set_self (h.lt hR).1, getElem?_set_self (h.lt hR).2, hr⟩
  · have htu' : t' ≠ u' := fun heq => htu ((hone t t' u u' hR hu).2 heq)
    rw [getElem?_set_ne htu, getElem?_set_ne htu']
    exact h u u' hu

theorem set_left (h : Paired RP R l l') (ht : l[t]? = some pr')
    (hr : ∀ x, RP pr' x → RP pr x) : Paired RP R (l.set t pr) l' := by
  intro u u' hu
  obtain ⟨x, x', hl, hl', hx⟩ := h u u' hu
  by_cases htu : t = u
  · subst htu
    obtain rfl := some.inj (ht.symm.trans hl)
    exact ⟨pr, x', getElem?_set_self (h.lt hu).1, hl', hr x' hx⟩
  · rw [getElem?_set_ne htu]
    exact ⟨x, x', hl, hl', hx⟩

theorem map (h : Paired RP R l l') (f : Prog σ ι κ ο → Prog σ ι κ ο) (hf : ∀ pr pr', RP (f pr) (f pr')) :
    Paired RP R (l.map f) (l'.map f) := by
  intro t t' hR
  obtain ⟨pr, pr', hl, hl', -⟩ := h t t' hR
  exact ⟨f pr, f pr', by rw [getElem?_map, hl]; rfl, by rw [getElem?_map, hl']; rfl, hf pr pr'⟩

end Paired

end Threads

/-- What relations between the states and between the programs of two runs have to keep. -/
structure Unwinding (M : Machine σ ι κ ο ε) (K : σ → Event κ ο ε → Prop) (hidden : Event κ ο ε → Bool) (s₀ : σ)
    (RS : σ → σ → Prop) (RP : Prog σ ι κ ο → Prog σ ι κ ο → Prop) : Prop where
  start : RS s₀ s₀
  done : RP .done .done
  symm : ∀ s s', RS s s' → RS s' s
  symmProg : ∀ pr pr', RP pr pr' → RP pr' pr
  hiddenStep : ∀ {p m ev q s'}, M.Run K s₀ p → M.step p m = some (ev, q) → K p.shared ev → hidden ev = true →
    RS p.shared s' → RS q.shared s'
  hiddenGo : ∀ {t n i s o pr rest l pr'}, M.resume t n i s pr = some (o, rest, l) → hidden (.op t o) = true →
    RP pr pr' → RP rest pr'
  hiddenEnv : ∀ {x}, hidden (.env x) = true → M.halts x = false
  go : ∀ {p p' t t' i pr pr' o o' rest rest' l l'}, M.Run K s₀ p → M.Run K s₀ p' → RS p.shared p'.shared →
    p.threads[t]? = some pr → p'.threads[t']? = some pr' → RP pr pr' →
    M.resume t p.threads.length i p.shared pr = some (o, rest, l) →
    M.resume t' p'.threads.length i p'.shared pr' = some (o', rest', l') →
    K p.shared (.op t o) → K p'.shared (.op t' o') → hidden (.op t o) = false → hidden (.op t' o') = false →
    RS (M.effect t o p.shared) (M.effect t' o' p'.shared) ∧ RP rest rest' ∧
      Forall₂ RP (l.map M.body) (l'.map M.body)
  call : ∀ {c s}, M.accepts c s = true → RP (M.body c) (M.body c)
  env : ∀ {x n n' s s' z z' l l'}, RS s s' → M.env x n s = some (z, l) → M.env x n' s' = some (z', l') →
    hidden (.env x) = false → RS z z' ∧ Forall₂ RP (l.map M.body) (l'.map M.body)

namespace Unwinding
variable {M : Machine σ ι κ ο ε} {K : σ → Event κ ο ε → Prop} {hidden : Event κ ο ε → Bool} {s₀ : σ}
  {RS : σ → σ → Prop} {RP : Prog σ ι κ ο → Prog σ ι κ ο → Prop} [DecidableEq α] {obs : σ → α}
  {tr tr' : Trace σ ι κ ο ε} {P : List (Nat × Nat)} {R : Nat → Nat → Prop} {m m' : Move ι κ ε}
  {ev ev' : Event κ ο ε} {p p' q q' : Pool σ ι κ ο}

structure Agree (M : Machine σ ι κ ο ε) (K : σ → Event κ ο ε → Prop) (RS : σ → σ → Prop)
    (RP : Prog σ ι κ ο → Prog σ ι κ ο → Prop) (obs : σ → α) (s₀ : σ) (tr tr' : Trace σ ι κ ο ε)
    (R : Nat → Nat → Prop) : Prop where
  run : M.Run K s₀ (tr.pool s₀)
  run' : M.Run K s₀ (tr'.pool s₀)
  shared : RS (tr.pool s₀).shared (tr'.pool s₀).shared
  oneToOne : OneToOne R
  threads : Paired RP R (tr.pool s₀).threads (tr'.pool s₀).threads
  observed : tr.observed obs s₀ = tr'.observed obs s₀

theorem Agree.symm (hu : Unwinding M K hidden s₀ RS RP) (h : Agree M K RS RP obs s₀ tr tr' R) :
    Agree M K RS RP obs s₀ tr' tr fun t t' => R t' t where
  run := h.run'
  run' := h.run
  shared := hu.symm _ _ h.shared
  oneToOne := h.oneToOne.symm
  threads := h.threads.symm hu.symmProg
  observed := h.observed.symm

theorem paired_hidden (hu : Unwinding M K hidden s₀ RS RP) {l' : List (Prog σ ι κ ο)}
    (hm : M.step p m = some (ev, q)) (hev : hidden ev = true) (h : Paired RP R p.threads l') :
    Paired RP R q.threads l' := by
  cases m with
  | go t i =>
    obtain ⟨pr, o, rest, l, ht, hres, rfl, rfl⟩ := step_go hm
    exact (h.set_left ht fun _ hx => hu.hiddenGo hres hev hx).append_left _
  | call c =>
    obtain ⟨-, -, rfl⟩ := step_call hm
    exact h.append_left _
  | env x =>
    obtain ⟨s, l, -, rfl, rfl⟩ := step_env hm
    rw [hu.hiddenEnv hev]
    exact h.append_left _

theorem Agree.left (hu : Unwinding M K hidden s₀ RS RP) (hobs : ∀ s s', RS s s' → obs s = obs s')
    (hm : M.step (tr.pool s₀) m = some (ev, q)) (hk : K (tr.pool s₀).shared ev) (hev : hidden ev = true)
    (h : Agree M K RS RP obs s₀ tr tr' R) : Agree M K RS RP obs s₀ ((ev, q) :: tr) tr' R := by
  have hshared : RS q.shared (tr'.pool s₀).shared := hu.hiddenStep h.run hm hk hev h.shared
  have heq : obs q.shared = obs (tr.pool s₀).shared := (hobs _ _ hshared).trans (hobs _ _ h.shared).symm
  exact { h with
    run := h.run.step hm hk
    shared := hshared
    threads := hu.paired_hidden hm hev h.threads
    observed := (Trace.observed_of_eq heq).trans h.observed }

theorem both_step (hu : Unwinding M K hidden s₀ RS RP) (hr : M.Run K s₀ p) (hr' : M.Run K s₀ p')
    (hs : RS p.shared p'.shared) (hone : OneToOne fun t t' => (t, t') ∈ P)
    (ht : Paired RP (fun t t' => (t, t') ∈ P) p.threads p'.threads) (hsame : m.Same P m')
    (hm : M.step p m = some (ev, q)) (hm' : M.step p' m' = some (ev', q')) (hk : K p.shared ev)
    (hk' : K p'.shared ev') (hev : hidden ev = false) (hev' : hidden ev' = false) :
    RS q.shared q'.shared ∧ Paired RP (fun t t' => (t, t') ∈
      started P p.threads.length p'.threads.length q.threads.length q'.threads.length) q.threads q'.threads := by
  cases hsame with
  | @go t t' hR i =>
    obtain ⟨pr, o, rest, l, hpr, hres, rfl, rfl⟩ := step_go hm
    obtain ⟨pr', o', rest', l', hpr', hres', rfl, rfl⟩ := step_go hm'
    obtain ⟨_, _, h1, h2, hrel⟩ := ht t t' hR
    obtain rfl := some.inj (hpr.symm.trans h1)
    obtain rfl := some.inj (hpr'.symm.trans h2)
    obtain ⟨hshared, hrest, hnew⟩ := hu.go hr hr' hs hpr hpr' hrel hres hres' hk hk' hev hev'
    have hpaired := (ht.set hone hR hrest).append hnew
    rw [length_set, length_set] at hpaired
    exact ⟨hshared, hpaired⟩
  | call c =>
    obtain ⟨hacc, -, rfl⟩ := step_call hm
    obtain ⟨-, -, rfl⟩ := step_call hm'
    exact ⟨hs, ht.append (.cons (hu.call hacc) .nil)⟩
  | env x =>
    obtain ⟨s, l, henv, rfl, rfl⟩ := step_env hm
    obtain ⟨s', l', henv', -, rfl⟩ := step_env hm'
    obtain ⟨hshared, hnew⟩ := hu.env hs henv henv' hev
    refine ⟨hshared, ?_⟩
    cases M.halts x with
    | false => exact ht.append hnew
    | true =>
      have hpaired := (ht.map (fun _ => .done) fun _ _ => hu.done).append hnew
      rw [length_map, length_map] at hpaired
      exact hpaired

theorem Agree.both (hu : Unwinding M K hidden s₀ RS RP) (hobs : ∀ s s', RS s s' → obs s = obs s')
    (hsame : m.Same P m') (hm : M.step (tr.pool s₀) m = some (ev, q)) (hm' : M.step (tr'.pool s₀) m' = some (ev', q'))
    (hk : K (tr.pool s₀).shared ev) (hk' : K (tr'.pool s₀).shared ev') (hev : hidden ev = false)
    (hev' : hidden ev' = false) (h : Agree M K RS RP obs s₀ tr tr' fun t t' => (t, t') ∈ P) :
    Agree M K RS RP obs s₀ ((ev, q) :: tr) ((ev', q') :: tr') fun t t' => (t, t') ∈
      started P (tr.pool s₀).threads.length (tr'.pool s₀).threads.length q.threads.length q'.threads.length := by
  obtain ⟨hshared, hpaired⟩ :=
    hu.both_step h.run h.run' h.shared h.oneToOne h.threads hsame hm hm' hk hk' hev hev'
  refine ⟨h.run.step hm hk, h.run'.step hm' hk', hshared, h.oneToOne.started fun _ _ => h.threads.lt, hpaired, ?_⟩
  rw [Trace.observed, Trace.observed, h.observed, hobs _ _ hshared]

theorem agree (hu : Unwinding M K hidden s₀ RS RP) (hobs : ∀ s s', RS s s' → obs s = obs s')
    (h : Twins M K hidden s₀ tr tr' P) : Agree M K RS RP obs s₀ tr tr' fun t t' => (t, t') ∈ P := by
  induction h with
  | start =>
    exact ⟨.start, .start, hu.start, fun _ _ _ _ ht => absurd ht not_mem_nil,
      fun _ _ ht => absurd ht not_mem_nil, rfl⟩
  | left _ hm hk hev ih => exact ih.left hu hobs hm hk hev
  | right _ hm hk hev ih => exact ((ih.symm hu).left hu hobs hm hk hev).symm hu
  | both _ hsame hm hm' hk hk' hev hev' ih => exact ih.both hu hobs hsame hm hm' hk hk' hev hev'

end Unwinding

inductive TwinMove (ι κ ε : Type) where
  | left (m : Move ι κ ε)
  | go (t t' : Nat) (i : ι)
  | call (c : κ)
  | env (x : ε)

structure TwinPools (σ ι κ ο : Type) where
  pool : Pool σ ι κ ο
  pool' : Pool σ ι κ ο
  pairs : List (Nat × Nat)

section Exec
variable (ok : σ → Event κ ο ε → Bool) (hidden : Event κ ο ε → Bool) (M : Machine σ ι κ ο ε)

def stepBoth (x : TwinPools σ ι κ ο) (m m' : Move ι κ ε) : Option (TwinPools σ ι κ ο) :=
  (M.step x.pool m).bind fun r => (M.step x.pool' m').bind fun r' =>
    if ok x.pool.shared r.1 && ok x.pool'.shared r'.1 && !hidden r.1 && !hidden r'.1 then
      some ⟨r.2, r'.2, started x.pairs x.pool.threads.length x.pool'.threads.length r.2.threads.length
        r'.2.threads.length⟩
    else none

def stepTwins (x : TwinPools σ ι κ ο) : TwinMove ι κ ε → Option (TwinPools σ ι κ ο)
  | .left m => (M.step x.pool m).bind fun r =>
    if ok x.pool.shared r.1 && hidden r.1 then some { x with pool := r.2 } else none
  | .go t t' i => if (t, t') ∈ x.pairs then stepBoth ok hidden M x (.go t i) (.go t' i) else none
  | .call c => stepBoth ok hidden M x (.call c) (.call c)
  | .env y => stepBoth ok hidden M x (.env y) (.env y)

def execTwins : List (TwinMove ι κ ε) → TwinPools σ ι κ ο → Option (TwinPools σ ι κ ο)
  | [], x => some x
  | m :: ms, x => (stepTwins ok hidden M x m).bind (execTwins ms)

end Exec

section Sound
variable {M : Machine σ ι κ ο ε} {K : σ → Event κ ο ε → Prop} {hidden : Event κ ο ε → Bool} {s₀ : σ}
  {ok : σ → Event κ ο ε → Bool} {x y : TwinPools σ ι κ ο} {m m' : Move ι κ ε}

def Twinned (M : Machine σ ι κ ο ε) (K : σ → Event κ ο ε → Prop) (hidden : Event κ ο ε → Bool) (s₀ : σ)
    (x : TwinPools σ ι κ ο) : Prop :=
  ∃ tr tr', Twins M K hidden s₀ tr tr' x.pairs ∧ tr.pool s₀ = x.pool ∧ tr'.pool s₀ = x.pool'

theorem Twinned.both (hok : ∀ s ev, ok s ev = true → K s ev) (h : Twinned M K hidden s₀ x)
    (hsame : m.Same x.pairs m') (hx : stepBoth ok hidden M x m m' = some y) : Twinned M K hidden s₀ y := by
  obtain ⟨tr, tr', htw, hp, hp'⟩ := h
  simp only [stepBoth, bind_eq_some_iff] at hx
  obtain ⟨⟨ev, q⟩, hm, ⟨ev', q'⟩, hm', hx⟩ := hx
  split at hx
  · rename_i hcond
    simp only [Bool.and_eq_true, Bool.not_eq_true'] at hcond
    obtain ⟨⟨⟨hk, hk'⟩, hev⟩, hev'⟩ := hcond
    cases hx
    rw [← hp] at hm hk
    rw [← hp'] at hm' hk'
    refine ⟨(ev, q) :: tr, (ev', q') :: tr', ?_, rfl, rfl⟩
    rw [← hp, ← hp']
    exact htw.both hsame hm hm' (hok _ _ hk) (hok _ _ hk') hev hev'
  · cases hx

theorem Twinned.exec (hok : ∀ s ev, ok s ev = true → K s ev) {ms : List (TwinMove ι κ ε)}
    (h : Twinned M K hidden s₀ x) (hx : execTwins ok hidden M ms x = some y) : Twinned M K hidden s₀ y := by
  induction ms generalizing x with
  | nil =>
    cases hx
    exact h
  | cons m ms ih =>
    rw [execTwins, bind_eq_some_iff] at hx
    obtain ⟨z, hz, hx⟩ := hx
    refine ih ?_ hx
    cases m with
    | left m =>
      obtain ⟨tr, tr', htw, hp, hp'⟩ := h
      simp only [stepTwins, bind_eq_some_iff] at hz
      obtain ⟨⟨ev, q⟩, hm, hz⟩ := hz
      split at hz
      · rename_i hcond
        rw [Bool.and_eq_true] at hcond
        cases hz
        rw [← hp] at hm hcond
        exact ⟨_, tr', htw.left hm (hok _ _ hcond.1) hcond.2, rfl, hp'⟩
      · cases hz
    | go t t' i =>
      rw [stepTwins] at hz
      split at hz
      · exact h.both hok (.go ‹_› i) hz
      · cases hz
    | call c => exact h.both hok (.call c) hz
    | env e => exact h.both hok (.env e) hz

end Sound

end Machine

end VmManager.Interleaving
