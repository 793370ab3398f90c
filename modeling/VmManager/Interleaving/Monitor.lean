import VmManager.Interleaving.Outline

/-! Monitors: what a goroutine may do depends on what it has done before, and on nothing else. A
program obeys a monitor by its shape alone, whatever state and answers it meets, so no interference has
to be considered; the outline at the end carries this over to runs. -/
namespace VmManager.Interleaving

structure Monitor (κ ο μ : Type) where
  init : μ
  next : μ → ο → μ
  allows : μ → ο → Prop
  /-- Where a goroutine may go on as the call. -/
  pre : κ → μ → Prop

namespace Monitor
open Outline (Post)
variable {σ ι κ ο ε μ ξ α β : Type} (W : Monitor κ ο μ)

inductive Obeys : μ → Prog σ ι κ ο → Prop where
  | done (m : μ) : Obeys m .done
  | jump {m : μ} {c : κ} (h : W.pre c m) : Obeys m (.jump c)
  | act {m : μ} {f : Nat → Nat → ι → σ → Option (ο × Prog σ ι κ ο × List κ)}
      (h : ∀ t n i s o rest l, f t n i s = some (o, rest, l) → W.allows m o ∧ ∀ c ∈ l, W.pre c W.init)
      (hrest : ∀ t n i s o rest l, f t n i s = some (o, rest, l) → Obeys (W.next m o) rest) : Obeys m (.act f)

/-- From `m` the code obeys the monitor and leaves it where `Q` says. -/
def Leads (m : μ) (x : Proc σ ι κ ο α) (Q : α → μ → Prop) : Prop :=
  ∀ k : α → Prog σ ι κ ο, (∀ a m', Q a m' → W.Obeys m' (k a)) → W.Obeys m (x k)

variable {W} {m : μ} {P : μ → Prop} {Q Q' : α → μ → Prop} {R : β → μ → Prop}

namespace Leads

theorem pure {a : α} (h : Q a m) : W.Leads m (Pure.pure a : Proc σ ι κ ο α) Q :=
  fun _ hk => hk a m h

theorem bind {x : Proc σ ι κ ο α} {f : α → Proc σ ι κ ο β} (hx : W.Leads m x Q)
    (hf : ∀ a m', Q a m' → W.Leads m' (f a) R) : W.Leads m (x >>= f) R :=
  fun k hk => hx _ fun a m' hq => hf a m' hq k hk

theorem weaken {x : Proc σ ι κ ο α} (hx : W.Leads m x Q) (h : ∀ a m', Q a m' → Q' a m') : W.Leads m x Q' :=
  fun k hk => hx k fun a m' hq => hk a m' (h a m' hq)

theorem spawn {f : Nat → Nat → ι → σ → Option (ο × α × List κ)}
    (h : ∀ {t n i s o a l}, f t n i s = some (o, a, l) → W.allows m o ∧ (∀ c ∈ l, W.pre c W.init) ∧ Q a (W.next m o)) :
    W.Leads m (Proc.spawn f) Q := by
  intro k hk
  refine .act (fun t n i s o rest l hf => ?_) fun t n i s o rest l hf => ?_
  · simp only [Option.map_eq_some_iff, Prod.mk.injEq] at hf
    obtain ⟨⟨o', a, l'⟩, hf, rfl, rfl, rfl⟩ := hf
    obtain ⟨hok, hl, -⟩ := h hf
    exact ⟨hok, hl⟩
  · simp only [Option.map_eq_some_iff, Prod.mk.injEq] at hf
    obtain ⟨⟨o', a, l'⟩, hf, rfl, rfl, rfl⟩ := hf
    exact hk a _ (h hf).2.2

theorem step {f : Nat → ι → σ → Option (ο × α)}
    (h : ∀ {t i s o a}, f t i s = some (o, a) → W.allows m o ∧ Q a (W.next m o)) :
    W.Leads m (Proc.step f) Q := by
  refine spawn fun hf => ?_
  simp only [Option.map_eq_some_iff, Prod.mk.injEq] at hf
  obtain ⟨⟨o', a'⟩, hf, rfl, rfl, rfl⟩ := hf
  obtain ⟨hok, hq⟩ := h hf
  exact ⟨hok, fun c hc => absurd hc List.not_mem_nil, hq⟩

theorem goto {c : κ} (h : W.pre c m) : W.Leads m (Proc.goto c : Proc σ ι κ ο α) Q :=
  fun _ _ => .jump h

theorem ite {p : Prop} [Decidable p] {x y : Proc σ ι κ ο α} (hx : p → W.Leads m x Q)
    (hy : ¬ p → W.Leads m y Q) : W.Leads m (if p then x else y) Q := by
  split
  · exact hx ‹p›
  · exact hy ‹¬ p›

theorem toProg {x : Proc σ ι κ ο Unit} (h : W.Leads m x fun _ _ => True) : W.Obeys m x.toProg :=
  h _ fun _ m' _ => .done m'

theorem bindE {x : ExceptT ξ (Proc σ ι κ ο) α} {f : α → ExceptT ξ (Proc σ ι κ ο) β}
    (hx : W.Leads m x.run (Post Q P)) (hf : ∀ a m', Q a m' → W.Leads m' (f a).run (Post R P)) :
    W.Leads m (x >>= f).run (Post R P) := by
  have hbind : W.Leads m (x.run >>= ExceptT.bindCont f) (Post R P) := by
    refine bind hx fun r m' hq => ?_
    cases r with
    | ok a => exact hf a m' hq
    | error err => exact fun k hk => hk (.error err) m' hq
  exact hbind

theorem pureE {a : α} (h : Q a m) : W.Leads m (Pure.pure a : ExceptT ξ (Proc σ ι κ ο) α).run (Post Q P) :=
  fun _ hk => hk (.ok a) m h

theorem throwE {err : ξ} (h : P m) : W.Leads m (throw err : ExceptT ξ (Proc σ ι κ ο) α).run (Post Q P) :=
  fun _ hk => hk (.error err) m h

theorem liftE {x : Proc σ ι κ ο α} (hx : W.Leads m x Q) :
    W.Leads m (ExceptT.lift x : ExceptT ξ (Proc σ ι κ ο) α).run (Post Q P) :=
  fun _ hk => hx _ fun a m' hq => hk (.ok a) m' hq

theorem total {x : ExceptT ξ (Proc σ ι κ ο) α} (h : W.Leads m x.run (Post (fun _ => P) P)) :
    W.Leads m x.run fun _ => P :=
  weaken h fun r _ hm => by cases r <;> exact hm

end Leads

variable (W) in
def outline (M : Machine σ ι κ ο ε) (at' : σ → Nat → μ) (unused : Nat → σ → Prop) : Outline M where
  inv _ := True
  guard t o s := W.allows (at' s t) o
  pre c t s := W.pre c (at' s t)
  rely t s s' := at' s' t = at' s t
  unused := unused

structure Tracks (W : Monitor κ ο μ) (M : Machine σ ι κ ο ε) (at' : σ → Nat → μ)
    (unused : Nat → σ → Prop) : Prop where
  next : ∀ s t o, at' (M.effect t o s) t = W.next (at' s t) o
  other : ∀ s t o t', t' ≠ t → at' (M.effect t o s) t' = at' s t'
  fresh : ∀ s n t, unused n s → n ≤ t → at' s t = W.init
  grows : ∀ s n n' t o, unused n s → t < n → n ≤ n' → unused n' (M.effect t o s)

variable {M : Machine σ ι κ ο ε} {at' : σ → Nat → μ} {unused : Nat → σ → Prop} {t : Nat}

private theorem sat_act (hW : W.Tracks M at' unused) {A : μ → Prop}
    {f : Nat → Nat → ι → σ → Option (ο × Prog σ ι κ ο × List κ)}
    (h : ∀ m n i s o rest l, A m → f t n i s = some (o, rest, l) → W.allows m o ∧ ∀ c ∈ l, W.pre c W.init)
    (hrest : ∀ m n i s o rest l, A m → f t n i s = some (o, rest, l) →
      (W.outline M at' unused).Sat t (fun s => at' s t = W.next m o) rest) :
    (W.outline M at' unused).Sat t (fun s => A (at' s t)) (.act f) := by
  have hst : (W.outline M at' unused).Stable t fun s => A (at' s t) := by
    intro s s' _ hr hA
    rw [show at' s' t = at' s t from hr]
    exact hA
  refine .act _ f (fun s n i s' => ∃ o rest l, f t n i s = some (o, rest, l) ∧
    at' s' t = W.next (at' s t) o) hst (fun s n i o rest l _ hn ht hA hf => ?_)
    fun s n i o rest l _ hn ht hA hf => ?_
  · obtain ⟨hok, hl⟩ := h _ n i s o rest l hA hf
    refine ⟨hok, hW.grows s n _ t o hn ht (Nat.le_add_right ..), fun j c hj => ?_, o, rest, l, hf, hW.next s t o⟩
    change W.pre c (at' (M.effect t o s) (n + j))
    rw [hW.other s t o _ (by omega), hW.fresh s n _ hn (Nat.le_add_right ..)]
    exact hl c (List.mem_of_getElem? hj)
  · have hq : (fun s' => ∃ o rest l, f t n i s = some (o, rest, l) ∧
        at' s' t = W.next (at' s t) o) = fun s' => at' s' t = W.next (at' s t) o := by
      simp [hf]
    rw [hq]
    exact hrest _ n i s o rest l hA hf

private theorem sat_jump {A : μ → Prop} {c : κ} (h : ∀ m, A m → W.pre c m) :
    (W.outline M at' unused).Sat t (fun s => A (at' s t)) (.jump c) := by
  refine .jump _ c (fun s s' _ hr hA => ?_) fun s _ hA => h _ hA
  rw [show at' s' t = at' s t from hr]
  exact hA

theorem Obeys.sat (hW : W.Tracks M at' unused) {pr : Prog σ ι κ ο} (h : W.Obeys m pr) :
    (W.outline M at' unused).Sat t (fun s => at' s t = m) pr := by
  induction h with
  | done m => exact .done _
  | @jump m c hc => exact sat_jump (A := (· = m)) fun m' hm => hm ▸ hc
  | @act m f h hrest ih =>
    exact sat_act hW (A := (· = m)) (fun m' n i s o rest l hm => hm ▸ h t n i s o rest l)
      fun m' n i s o rest l hm => hm ▸ ih t n i s o rest l

theorem sat_of_obeys (hW : W.Tracks M at' unused) {A : μ → Prop} {pr : Prog σ ι κ ο}
    (h : ∀ m, A m → W.Obeys m pr) : (W.outline M at' unused).Sat t (fun s => A (at' s t)) pr := by
  cases pr with
  | done => exact .done _
  | jump c =>
    refine sat_jump fun m hA => ?_
    cases h m hA with
    | jump hc => exact hc
  | act f =>
    refine sat_act hW (fun m n i s o rest l hA hf => ?_) fun m n i s o rest l hA hf => ?_
    · cases h m hA with
      | act hstep _ => exact hstep t n i s o rest l hf
    · cases h m hA with
      | act _ hrest => exact (hrest t n i s o rest l hf).sat hW

theorem sound (hW : W.Tracks M at' unused) {s₀ : σ}
    (hbody : ∀ c m, W.pre c m → W.Obeys m (M.body c))
    (henv : ∀ s x n s' l, M.env x n s = some (s', l) →
      (M.halts x = false → ∀ t, at' s' t = at' s t) ∧ (unused n s → unused (n + l.length) s') ∧
        ∀ c ∈ l, M.halts x = false ∧ W.pre c W.init)
    (haccepts : ∀ s c, M.accepts c s = true → W.pre c W.init)
    (hstart : unused 0 s₀) (hmono : ∀ s m n, m ≤ n → unused m s → unused n s) :
    (W.outline M at' unused).Sound s₀ where
  start := trivial
  body c t := sat_of_obeys hW (hbody c)
  effect_inv _ _ _ _ _ := trivial
  effect_rely s t t' o _ _ ht := hW.other s t o t' (Ne.symm ht)
  env_inv _ _ _ _ _ _ _ := trivial
  env_rely s x n s' l t _ hx hh _ := (henv s x n s' l hx).1 hh t
  env_unused s x n s' l _ hx hu := (henv s x n s' l hx).2.1 hu
  env_pre s x n s' l j c _ hx hu hj := by
    obtain ⟨hsame, -, hl⟩ := henv s x n s' l hx
    obtain ⟨hh, hc⟩ := hl c (List.mem_of_getElem? hj)
    change W.pre c (at' s' (n + j))
    rw [hsame hh, hW.fresh s n _ hu (Nat.le_add_right ..)]
    exact hc
  accepts_pre s c n _ hc hu := by
    change W.pre c (at' s n)
    rw [hW.fresh s n n hu (Nat.le_refl n)]
    exact haccepts s c hc
  unused_start := hstart
  unused_mono := hmono

end Monitor

end VmManager.Interleaving
