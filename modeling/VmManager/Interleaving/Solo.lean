import VmManager.Interleaving.Outline

/-! A goroutine that runs alone: no other goroutine moves, and outside events come between its steps. The
rules say, for code composed of atomic steps, what holds of the shared state when it ends. Code that goes
on as another call does not end here. -/
namespace VmManager.Interleaving
open Outline (Post)
variable {σ ι κ ο ε : Type}

namespace Machine

inductive Alone (M : Machine σ ι κ ο ε) (K : σ → Event κ ο ε → Prop) (t : Nat) :
    σ → Prog σ ι κ ο → σ → Prog σ ι κ ο → Prop where
  | refl (s : σ) (pr : Prog σ ι κ ο) : Alone M K t s pr s pr
  | act {s s' : σ} {f : Nat → Nat → ι → σ → Option (ο × Prog σ ι κ ο × List κ)} {n : Nat} {i : ι}
      {o : ο} {rest pr' : Prog σ ι κ ο} {l : List κ} (hf : f t n i s = some (o, rest, l))
      (hk : K s (.op t o)) (h : Alone M K t (M.effect t o s) rest s' pr') : Alone M K t s (.act f) s' pr'
  | env {s s₁ s' : σ} {f : Nat → Nat → ι → σ → Option (ο × Prog σ ι κ ο × List κ)} {x : ε} {n : Nat}
      {pr' : Prog σ ι κ ο} {l : List κ} (hx : M.env x n s = some (s₁, l)) (hh : M.halts x = false)
      (hk : K s (.env x)) (h : Alone M K t s₁ (.act f) s' pr') : Alone M K t s (.act f) s' pr'

variable (M : Machine σ ι κ ο ε) (K : σ → Event κ ο ε → Prop) (t : Nat)

def Undisturbed (P : σ → Prop) : Prop :=
  ∀ s x n s' l, M.env x n s = some (s', l) → M.halts x = false → K s (.env x) → P s → P s'

def Ends (R : σ → Prop) (s : σ) (pr : Prog σ ι κ ο) : Prop := ∀ s', Alone M K t s pr s' .done → R s'

/-- From `P` the code ends, if at all, with `Q` of its result. -/
def Solo {α : Type} (P : σ → Prop) (x : Proc σ ι κ ο α) (Q : α → σ → Prop) : Prop :=
  ∀ (R : σ → Prop) (k : α → Prog σ ι κ ο), (∀ a s, Q a s → Ends M K t R s (k a)) → ∀ s, P s → Ends M K t R s (x k)

variable {M K t} {α β ξ : Type} {P P' E : σ → Prop} {Q Q' : α → σ → Prop} {R : β → σ → Prop}

namespace Solo

theorem pure {a : α} (h : ∀ s, P s → Q a s) : Solo M K t P (Pure.pure a : Proc σ ι κ ο α) Q :=
  fun _ _ hk s hs => hk a s (h s hs)

theorem bind {x : Proc σ ι κ ο α} {f : α → Proc σ ι κ ο β} (hx : Solo M K t P x Q)
    (hf : ∀ a, Solo M K t (Q a) (f a) R) : Solo M K t P (x >>= f) R :=
  fun G k hk => hx G _ fun a => hf a G k hk

theorem weaken {x : Proc σ ι κ ο α} (h : Solo M K t P x Q) (hQ : ∀ a s, Q a s → Q' a s) : Solo M K t P x Q' :=
  fun G k hk => h G k fun a s hs => hk a s (hQ a s hs)

theorem given {F : Prop} {x : Proc σ ι κ ο α} (h : F → Solo M K t P x Q) : Solo M K t (fun s => F ∧ P s) x Q :=
  fun G k hk s hs => h hs.1 G k hk s hs.2

theorem spawn {f : Nat → Nat → ι → σ → Option (ο × α × List κ)} (hst : Undisturbed M K P)
    (h : ∀ {s n i o a l}, P s → f t n i s = some (o, a, l) → K s (.op t o) → Q a (M.effect t o s)) :
    Solo M K t P (Proc.spawn f) Q := by
  intro G k hk s hs s' hrun
  generalize hpr : Proc.spawn f k = pr at hrun
  generalize hend : Prog.done = pr' at hrun
  induction hrun with
  | refl =>
    rw [← hpr] at hend
    cases hend
  | act hf hop hrest =>
    cases hpr
    simp only [Option.map_eq_some_iff, Prod.mk.injEq] at hf
    obtain ⟨⟨o, a, l⟩, hf, rfl, rfl, rfl⟩ := hf
    exact hk a _ (h hs hf hop) _ (hend ▸ hrest)
  | env hx hh hev _ ih => exact ih (hst _ _ _ _ _ hx hh hev hs) hpr hend

theorem step {f : Nat → ι → σ → Option (ο × α)} (hst : Undisturbed M K P)
    (h : ∀ {s i o a}, P s → f t i s = some (o, a) → K s (.op t o) → Q a (M.effect t o s)) :
    Solo M K t P (Proc.step f) Q := by
  refine spawn hst fun hs hf hk => ?_
  simp only [Option.map_eq_some_iff, Prod.mk.injEq] at hf
  obtain ⟨⟨o', a'⟩, hf, rfl, rfl, rfl⟩ := hf
  exact h hs hf hk

theorem goto {c : κ} : Solo M K t P (Proc.goto c : Proc σ ι κ ο α) Q := by
  intro G k _ s _ s' hrun
  have hjump : Alone M K t s (.jump c) s' .done := hrun
  cases hjump

theorem ite {p : Prop} [Decidable p] {x y : Proc σ ι κ ο α} (hx : p → Solo M K t P x Q)
    (hy : ¬ p → Solo M K t P y Q) : Solo M K t P (if p then x else y) Q := by
  split
  · exact hx ‹p›
  · exact hy ‹¬ p›

theorem bindE {x : ExceptT ξ (Proc σ ι κ ο) α} {f : α → ExceptT ξ (Proc σ ι κ ο) β}
    (hx : Solo M K t P x.run (Post Q E)) (hf : ∀ a, Solo M K t (Q a) (f a).run (Post R E)) :
    Solo M K t P (x >>= f).run (Post R E) := by
  have hbind : Solo M K t P (x.run >>= ExceptT.bindCont f) (Post R E) := by
    refine bind hx fun r => ?_
    cases r with
    | ok a => exact hf a
    | error err => exact fun _ _ hk s hs => hk (.error err) s hs
  exact hbind

theorem pureE {a : α} (h : ∀ s, P s → Q a s) : Solo M K t P (Pure.pure a : ExceptT ξ (Proc σ ι κ ο) α).run (Post Q E) :=
  fun _ _ hk s hs => hk (.ok a) s (h s hs)

theorem throwE {err : ξ} (h : ∀ s, P s → E s) : Solo M K t P (throw err : ExceptT ξ (Proc σ ι κ ο) α).run (Post Q E) :=
  fun _ _ hk s hs => hk (.error err) s (h s hs)

theorem liftE {x : Proc σ ι κ ο α} (hx : Solo M K t P x Q) :
    Solo M K t P (ExceptT.lift x : ExceptT ξ (Proc σ ι κ ο) α).run (Post Q E) :=
  fun G _ hk => hx G _ fun a s hs => hk (.ok a) s hs

theorem toProg {x : Proc σ ι κ ο Unit} {G : σ → Prop} {s : σ} (h : Solo M K t P x fun _ => G)
    (hs : P s) : Ends M K t G s x.toProg := by
  refine h G _ (fun _ s₁ hG s' hrun => ?_) s hs
  cases hrun
  exact hG

end Solo

def aloneWith (ok : σ → Event κ ο ε → Bool) (M : Machine σ ι κ ο ε) (t n : Nat) :
    List (ι ⊕ ε) → σ → Prog σ ι κ ο → Option (σ × Prog σ ι κ ο)
  | [], s, pr => some (s, pr)
  | .inl i :: ms, s, .act f => (f t n i s).bind fun r =>
    if ok s (.op t r.1) then aloneWith ok M t n ms (M.effect t r.1 s) r.2.1 else none
  | .inr x :: ms, s, .act f => (M.env x n s).bind fun r =>
    if ok s (.env x) && !M.halts x then aloneWith ok M t n ms r.1 (.act f) else none
  | _ :: _, _, _ => none

theorem Alone.of_aloneWith {ok : σ → Event κ ο ε → Bool} (hok : ∀ s ev, ok s ev = true → K s ev)
    {n : Nat} {ms : List (ι ⊕ ε)} {s s' : σ} {pr pr' : Prog σ ι κ ο}
    (h : aloneWith ok M t n ms s pr = some (s', pr')) : Alone M K t s pr s' pr' := by
  induction ms generalizing s pr with
  | nil =>
    cases h
    exact .refl _ _
  | cons m ms ih =>
    cases pr with
    | done => cases m <;> cases h
    | jump c => cases m <;> cases h
    | act f =>
      cases m with
      | inl i =>
        obtain ⟨⟨o, rest, l⟩, hf, h⟩ := Option.bind_eq_some_iff.1 h
        split at h
        · exact .act hf (hok _ _ ‹_›) (ih h)
        · cases h
      | inr x =>
        obtain ⟨⟨s₁, l⟩, hx, h⟩ := Option.bind_eq_some_iff.1 h
        split at h
        · rename_i hev
          simp only [Bool.and_eq_true, Bool.not_eq_true'] at hev
          exact .env hx hev.2 (hok _ _ hev.1) (ih h)
        · cases h

end Machine

end VmManager.Interleaving
