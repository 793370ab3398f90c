import VmManager.Interleaving.Machine

/-! Rely and guarantee for pools of goroutines. An outline says what each call may assume when it
begins, what must hold where an operation is performed, and what a goroutine can rely on while the
others move. Proving every body against it once gives the guard of every operation in every run. -/
namespace VmManager.Interleaving
open Option List

structure Outline {σ ι κ ο ε : Type} (M : Machine σ ι κ ο ε) where
  inv : σ → Prop
  guard : Nat → ο → σ → Prop
  pre : κ → Nat → σ → Prop
  rely : Nat → σ → σ → Prop
  /-- No trace of goroutine `n` or a later one is in the state. -/
  unused : Nat → σ → Prop

namespace Outline
variable {σ ι κ ο ε α β : Type} {M : Machine σ ι κ ο ε} (O : Outline M)

def Stable (t : Nat) (P : σ → Prop) : Prop := ∀ s s', O.inv s → O.rely t s s' → P s → P s'

/-- The program keeps its part of the outline when goroutine `t` runs it from `P`. -/
inductive Sat (t : Nat) : (σ → Prop) → Prog σ ι κ ο → Prop where
  | done (P : σ → Prop) : Sat t P .done
  | jump (P : σ → Prop) (c : κ) (hst : O.Stable t P) (h : ∀ s, O.inv s → P s → O.pre c t s) : Sat t P (.jump c)
  | act (P : σ → Prop) (f : Nat → Nat → ι → σ → Option (ο × Prog σ ι κ ο × List κ))
      (Q : σ → Nat → ι → σ → Prop) (hst : O.Stable t P)
      (hstep : ∀ s n i o rest l, O.inv s → O.unused n s → t < n → P s →
        f t n i s = some (o, rest, l) → O.guard t o s ∧ O.unused (n + l.length) (M.effect t o s) ∧
          (∀ j c, l[j]? = some c → O.pre c (n + j) (M.effect t o s)) ∧ Q s n i (M.effect t o s))
      (hrest : ∀ s n i o rest l, O.inv s → O.unused n s → t < n → P s →
        f t n i s = some (o, rest, l) → Sat t (Q s n i) rest) :
      Sat t P (.act f)

/-- From `P` the code reaches its end, if at all, with `Q` of its result. -/
def Triple (t : Nat) (P : σ → Prop) (x : Proc σ ι κ ο α) (Q : α → σ → Prop) : Prop :=
  ∀ k : α → Prog σ ι κ ο, (∀ a, O.Sat t (Q a) (k a)) → O.Sat t P (x k)

variable {O} {t : Nat} {P P' : σ → Prop} {Q Q' : α → σ → Prop}

theorem Sat.strengthen {pr : Prog σ ι κ ο} (hst : O.Stable t P')
    (hP : ∀ s, O.inv s → P' s → P s) (h : O.Sat t P pr) : O.Sat t P' pr := by
  cases h with
  | done => exact .done _
  | jump _ c _ h => exact .jump _ c hst fun s hi hp => h s hi (hP s hi hp)
  | act _ f Q _ hstep hrest =>
    exact .act _ f Q hst (fun s n i o rest l hi hn ht hp => hstep s n i o rest l hi hn ht (hP s hi hp))
      (fun s n i o rest l hi hn ht hp => hrest s n i o rest l hi hn ht (hP s hi hp))

theorem Triple.pure {a : α} (hst : O.Stable t P) (h : ∀ s, O.inv s → P s → Q a s) :
    O.Triple t P (pure a) Q := by
  intro k hk
  exact (hk a).strengthen hst h

theorem Triple.pure' {a : α} : O.Triple t (Q a) (Pure.pure a) Q := by
  intro k hk
  exact hk a

theorem Triple.bind {x : Proc σ ι κ ο α} {f : α → Proc σ ι κ ο β} {R : β → σ → Prop}
    (hx : O.Triple t P x Q) (hf : ∀ a, O.Triple t (Q a) (f a) R) : O.Triple t P (x >>= f) R := by
  intro k hk
  exact hx _ fun a => hf a k hk

theorem Triple.strengthen {x : Proc σ ι κ ο α} (hst : O.Stable t P')
    (hP : ∀ s, O.inv s → P' s → P s) (h : O.Triple t P x Q) : O.Triple t P' x Q := by
  intro k hk
  exact (h k hk).strengthen hst hP

theorem Triple.weaken {x : Proc σ ι κ ο α} (hst : ∀ a, O.Stable t (Q a))
    (hQ : ∀ a s, O.inv s → Q a s → Q' a s) (h : O.Triple t P x Q) : O.Triple t P x Q' := by
  intro k hk
  exact h k fun a => (hk a).strengthen (hst a) (hQ a)

theorem Triple.spawn {f : Nat → Nat → ι → σ → Option (ο × α × List κ)} (hst : O.Stable t P)
    (h : ∀ {s n i o a l}, O.inv s → O.unused n s → t < n → P s → f t n i s = some (o, a, l) →
      O.guard t o s ∧ O.unused (n + l.length) (M.effect t o s) ∧
        (∀ j c, l[j]? = some c → O.pre c (n + j) (M.effect t o s)) ∧ Q a (M.effect t o s)) :
    O.Triple t P (Proc.spawn f) Q := by
  intro k hk
  refine .act _ _ (fun s n i s' => ∃ r, f t n i s = some r ∧ Q r.2.1 s') hst
    (fun s n i o rest l hi hn ht hp hf => ?_) (fun s n i o rest l hi hn ht hp hf => ?_)
  · simp only [map_eq_some_iff, Prod.mk.injEq] at hf
    obtain ⟨⟨o', a, l'⟩, hf, rfl, rfl, rfl⟩ := hf
    obtain ⟨hg, hu, hl, hq⟩ := h hi hn ht hp hf
    exact ⟨hg, hu, hl, _, hf, hq⟩
  · simp only [map_eq_some_iff, Prod.mk.injEq] at hf
    obtain ⟨⟨o', a, l'⟩, hf, rfl, rfl, rfl⟩ := hf
    have hq : (fun s' => ∃ r, f t n i s = some r ∧ Q r.2.1 s') = Q a := by
      funext s'
      simp [hf]
    exact hq ▸ hk a

theorem Triple.step {f : Nat → ι → σ → Option (ο × α)} (hst : O.Stable t P)
    (hu : ∀ {s n i o a}, O.inv s → O.unused n s → t < n → P s → f t i s = some (o, a) → O.unused n (M.effect t o s))
    (h : ∀ {s i o a}, O.inv s → P s → f t i s = some (o, a) → O.guard t o s ∧ Q a (M.effect t o s)) :
    O.Triple t P (Proc.step f) Q := by
  refine .spawn hst fun hi hn ht hp hf => ?_
  simp only [map_eq_some_iff, Prod.mk.injEq] at hf
  obtain ⟨⟨o', a'⟩, hf, rfl, rfl, rfl⟩ := hf
  obtain ⟨hg, hq⟩ := h hi hp hf
  exact ⟨hg, hu hi hn ht hp hf, by simp, hq⟩

theorem Triple.goto {c : κ} (hst : O.Stable t P) (h : ∀ s, O.inv s → P s → O.pre c t s) :
    O.Triple t P (Proc.goto c) Q := by
  intro k _
  exact .jump _ c hst h

theorem Triple.toProg {x : Proc σ ι κ ο Unit} {R : Unit → σ → Prop} (h : O.Triple t P x R) : O.Sat t P x.toProg :=
  h _ fun _ => .done _

theorem Triple.ite {p : Prop} [Decidable p] {x y : Proc σ ι κ ο α} (hx : p → O.Triple t P x Q)
    (hy : ¬ p → O.Triple t P y Q) : O.Triple t P (if p then x else y) Q := by
  split
  · exact hx ‹p›
  · exact hy ‹¬ p›

section
variable {ξ : Type} {E : σ → Prop}

def Post (Q : α → σ → Prop) (E : σ → Prop) : Except ξ α → σ → Prop
  | .ok a => Q a
  | .error _ => E

theorem Triple.bindE {x : ExceptT ξ (Proc σ ι κ ο) α} {f : α → ExceptT ξ (Proc σ ι κ ο) β}
    {R : β → σ → Prop} (hx : O.Triple t P x.run (Post Q E))
    (hf : ∀ a, O.Triple t (Q a) (f a).run (Post R E)) : O.Triple t P (x >>= f).run (Post R E) := by
  have hbind : O.Triple t P (x.run >>= ExceptT.bindCont f) (Post R E) := by
    refine .bind hx fun r => ?_
    cases r with
    | ok a => exact hf a
    | error err => exact fun k hk => hk (.error err)
  exact hbind

theorem Triple.pureE {a : α} : O.Triple t (Q a) (Pure.pure a : ExceptT ξ (Proc σ ι κ ο) α).run (Post Q E) :=
  fun _ hk => hk (.ok a)

theorem Triple.throwE {err : ξ} : O.Triple t E (throw err : ExceptT ξ (Proc σ ι κ ο) α).run (Post Q E) :=
  fun _ hk => hk (.error err)

theorem Triple.liftE {x : Proc σ ι κ ο α} (hx : O.Triple t P x Q) :
    O.Triple t P (ExceptT.lift x : ExceptT ξ (Proc σ ι κ ο) α).run (Post Q E) :=
  fun _ hk => hx _ fun a => hk (.ok a)

end

def Guarded (s : σ) : Event κ ο ε → Prop
  | .op t o => O.guard t o s
  | _ => True

variable (O) in
/-- The obligations of an outline, for a machine started in `s₀`. -/
structure Sound (s₀ : σ) : Prop where
  start : O.inv s₀
  body : ∀ c t, O.Sat t (O.pre c t) (M.body c)
  effect_inv : ∀ s t o, O.inv s → O.guard t o s → O.inv (M.effect t o s)
  effect_rely : ∀ s t t' o, O.inv s → O.guard t o s → t ≠ t' → O.rely t' s (M.effect t o s)
  env_inv : ∀ s x n s' l, O.inv s → M.env x n s = some (s', l) → O.inv s'
  env_rely : ∀ s x n s' l t, O.inv s → M.env x n s = some (s', l) → M.halts x = false → t < n → O.rely t s s'
  env_unused : ∀ s x n s' l, O.inv s → M.env x n s = some (s', l) → O.unused n s → O.unused (n + l.length) s'
  env_pre : ∀ s x n s' l j c, O.inv s → M.env x n s = some (s', l) → O.unused n s → l[j]? = some c → O.pre c (n + j) s'
  accepts_pre : ∀ s c n, O.inv s → M.accepts c s = true → O.unused n s → O.pre c n s
  unused_start : O.unused 0 s₀
  unused_mono : ∀ s m n, m ≤ n → O.unused m s → O.unused n s

structure Holds (p : Pool σ ι κ ο) : Prop where
  inv : O.inv p.shared
  unused : O.unused p.threads.length p.shared
  threads : ∀ t pr, p.threads[t]? = some pr → ∃ P : σ → Prop, P p.shared ∧ O.Sat t P pr

theorem Sat.frame {s s' : σ} {pr : Prog σ ι κ ο} (h : O.Sat t P pr) (hi : O.inv s)
    (hr : O.rely t s s') (hp : P s) : ∃ P', P' s' ∧ O.Sat t P' pr := by
  cases h with
  | done => exact ⟨fun _ => True, trivial, .done _⟩
  | jump _ c hst h => exact ⟨P, hst s s' hi hr hp, .jump _ c hst h⟩
  | act _ f Q hst hstep hrest => exact ⟨P, hst s s' hi hr hp, .act _ f Q hst hstep hrest⟩

theorem Sat.resume {s : σ} {pr rest : Prog σ ι κ ο} {s₀ : σ} {n : Nat} {i : ι} {o : ο} {l : List κ}
    (hO : O.Sound s₀) (h : O.Sat t P pr) (hi : O.inv s) (hn : O.unused n s) (ht : t < n) (hp : P s)
    (hx : M.resume t n i s pr = some (o, rest, l)) : O.guard t o s ∧ O.unused (n + l.length) (M.effect t o s) ∧
      (∀ j c, l[j]? = some c → O.pre c (n + j) (M.effect t o s)) ∧
      ∃ Q : σ → Prop, Q (M.effect t o s) ∧ O.Sat t Q rest := by
  cases h with
  | done => cases hx
  | act _ f Q _ hstep hrest =>
    obtain ⟨hg, hu, hl, hq⟩ := hstep s n i o rest l hi hn ht hp hx
    exact ⟨hg, hu, hl, _, hq, hrest s n i o rest l hi hn ht hp hx⟩
  | jump _ c _ h =>
    have hb := hO.body c t
    simp only [Machine.resume] at hx
    cases hc : M.body c with
    | done => rw [hc] at hx; cases hx
    | jump c' => rw [hc] at hx; cases hx
    | act f =>
      rw [hc] at hx hb
      cases hb with
      | act _ _ Q _ hstep hrest =>
        obtain ⟨hg, hu, hl, hq⟩ := hstep s n i o rest l hi hn ht (h s hi hp) hx
        exact ⟨hg, hu, hl, _, hq, hrest s n i o rest l hi hn ht (h s hi hp) hx⟩

private theorem Holds.append {s s₀ : σ} {old : List (Prog σ ι κ ο)} {l : List κ} (hO : O.Sound s₀) (hi : O.inv s)
    (hn : O.unused (old.length + l.length) s) (hold : ∀ t pr, old[t]? = some pr → ∃ P : σ → Prop, P s ∧ O.Sat t P pr)
    (hl : ∀ j c, l[j]? = some c → O.pre c (old.length + j) s) :
    O.Holds ⟨s, old ++ l.map M.body⟩ := by
  refine ⟨hi, by simpa using hn, fun t pr hpr => ?_⟩
  rcases Nat.lt_or_ge t old.length with ht | ht
  · rw [getElem?_append_left ht] at hpr
    exact hold t pr hpr
  · simp only [getElem?_append_right ht, getElem?_map, map_eq_some_iff] at hpr
    obtain ⟨c, hc, rfl⟩ := hpr
    have hpre := hl _ _ hc
    rw [Nat.add_sub_cancel' ht] at hpre
    exact ⟨_, hpre, hO.body c t⟩

theorem Holds.step {p p' : Pool σ ι κ ο} {m : Move ι κ ε} {ev : Event κ ο ε} {s₀ : σ}
    (hO : O.Sound s₀) (hp : O.Holds p) (hm : M.step p m = some (ev, p')) :
    O.Guarded p.shared ev ∧ O.Holds p' := by
  cases m with
  | go t i =>
    obtain ⟨pr, o, rest, l, hpr, hx, rfl, rfl⟩ := Machine.step_go hm
    obtain ⟨P, hP, hsat⟩ := hp.threads t pr hpr
    have ht : t < p.threads.length := (List.getElem?_eq_some_iff.1 hpr).1
    obtain ⟨hg, hu, hl, Q, hQ, hrest⟩ := hsat.resume hO hp.inv hp.unused ht hP hx
    refine ⟨hg, Holds.append hO (hO.effect_inv _ _ _ hp.inv hg) ?_ (fun t' pr' hpr' => ?_) ?_⟩
    · simpa using hu
    · by_cases htt : t = t'
      · subst htt
        rw [getElem?_set_self ht, some.injEq] at hpr'
        exact hpr' ▸ ⟨Q, hQ, hrest⟩
      · rw [getElem?_set_ne htt] at hpr'
        obtain ⟨P', hP', hs⟩ := hp.threads t' pr' hpr'
        exact hs.frame hp.inv (hO.effect_rely _ _ _ _ hp.inv hg htt) hP'
    · simpa using hl
  | call c =>
    obtain ⟨hc, rfl, rfl⟩ := Machine.step_call hm
    have hn := hO.unused_mono _ _ (p.threads.length + [c].length) (by simp) hp.unused
    refine ⟨trivial, Holds.append hO hp.inv hn hp.threads fun j c' hj => ?_⟩
    cases j with
    | zero =>
      obtain rfl : c = c' := by simpa using hj
      exact hO.accepts_pre _ _ _ hp.inv hc hp.unused
    | succ j => simp at hj
  | env x =>
    obtain ⟨s, l, hx, rfl, rfl⟩ := Machine.step_env hm
    have hi := hO.env_inv _ _ _ _ _ hp.inv hx
    have hn := hO.env_unused _ _ _ _ _ hp.inv hx hp.unused
    have hl := fun j c => hO.env_pre _ _ _ _ _ j c hp.inv hx hp.unused
    refine ⟨trivial, ?_⟩
    cases hh : M.halts x with
    | true =>
      refine Holds.append hO hi (by simpa using hn) (fun t pr hpr => ?_) (by simpa using hl)
      simp only [if_true, getElem?_map, map_eq_some_iff] at hpr
      obtain ⟨_, -, rfl⟩ := hpr
      exact ⟨fun _ => True, trivial, .done _⟩
    | false =>
      refine Holds.append hO hi hn (fun t pr hpr => ?_) hl
      obtain ⟨P, hP, hs⟩ := hp.threads t pr hpr
      have ht : t < p.threads.length := (List.getElem?_eq_some_iff.1 hpr).1
      exact hs.frame hp.inv (hO.env_rely _ _ _ _ _ _ hp.inv hx hh ht) hP

theorem Sound.holds {K : σ → Event κ ο ε → Prop} {s₀ : σ} {p : Pool σ ι κ ο} (hO : O.Sound s₀)
    (h : M.Run K s₀ p) : O.Holds p := by
  induction h with
  | start => exact ⟨hO.start, hO.unused_start, by simp⟩
  | step _ hm _ ih => exact (ih.step hO hm).2

theorem Sound.run {K : σ → Event κ ο ε → Prop} {s₀ : σ} {p : Pool σ ι κ ο} (hO : O.Sound s₀)
    (h : M.Run K s₀ p) : M.Run (fun s ev => O.inv s ∧ O.Guarded s ev ∧ K s ev) s₀ p := by
  induction h with
  | start => exact .start
  | step h hm hev ih =>
    have hp := hO.holds h
    exact .step ih hm ⟨hp.inv, (hp.step hO hm).1, hev⟩

theorem Sound.guarded {K : σ → Event κ ο ε → Prop} {s₀ : σ} {p : Pool σ ι κ ο} (hO : O.Sound s₀)
    (h : M.Run K s₀ p) : M.Path (fun s ev => O.inv s ∧ O.Guarded s ev ∧ K s ev) s₀ p.shared :=
  (hO.run h).path

end Outline

end VmManager.Interleaving
