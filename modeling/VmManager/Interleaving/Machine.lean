import Mathlib.Logic.Function.Basic

/-! Goroutines over shared memory, as resumptions. A goroutine is the program it still has to run;
every atomic step of it sees the shared state and one answer of the environment, names the operation
it performs and goes on from there. A machine gives the operations their effect, and adds the calls
and the outside events that may come at any moment. -/
namespace VmManager.Interleaving
open Option List

/-- What a goroutine has left to do. A step gets the goroutine's own number, the number the next
goroutine will get, the environment's answer and the shared state. It is blocked, or it names its
operation, the rest of the program and the calls it starts as new goroutines. -/
inductive Prog (σ ι κ ο : Type) where
  | done
  | act (f : Nat → Nat → ι → σ → Option (ο × Prog σ ι κ ο × List κ))
  | jump (c : κ)

def Proc (σ ι κ ο α : Type) := (α → Prog σ ι κ ο) → Prog σ ι κ ο

namespace Proc
variable {σ ι κ ο α β : Type}

instance : Monad (Proc σ ι κ ο) where
  pure a := fun k => k a
  bind x f := fun k => x fun a => f a k

def spawn (f : Nat → Nat → ι → σ → Option (ο × α × List κ)) : Proc σ ι κ ο α := fun k =>
  .act fun t n i s => (f t n i s).map fun r => (r.1, k r.2.1, r.2.2)

def step (f : Nat → ι → σ → Option (ο × α)) : Proc σ ι κ ο α :=
  spawn fun t _ i s => (f t i s).map fun r => (r.1, r.2, [])

/-- The goroutine goes on as the call `c`; this is how a loop without a bound is written. -/
def goto (c : κ) : Proc σ ι κ ο α := fun _ => .jump c

def toProg (x : Proc σ ι κ ο Unit) : Prog σ ι κ ο := x fun _ => .done

end Proc

structure Machine (σ ι κ ο ε : Type) where
  body : κ → Prog σ ι κ ο
  effect : Nat → ο → σ → σ
  accepts : κ → σ → Bool
  /-- An outside event: the state after it and the goroutines it starts, the first of which gets the
  number given. -/
  env : ε → Nat → σ → Option (σ × List κ)
  /-- Outside events that end every goroutine. -/
  halts : ε → Bool

structure Pool (σ ι κ ο : Type) where
  shared : σ
  threads : List (Prog σ ι κ ο)

inductive Move (ι κ ε : Type) where
  | go (t : Nat) (i : ι)
  | call (c : κ)
  | env (x : ε)

inductive Event (κ ο ε : Type) where
  | op (t : Nat) (o : ο)
  | call (c : κ)
  | env (x : ε)
deriving DecidableEq

namespace Machine
variable {σ ι κ ο ε : Type} (M : Machine σ ι κ ο ε)

def resume (t n : Nat) (i : ι) (s : σ) : Prog σ ι κ ο → Option (ο × Prog σ ι κ ο × List κ)
  | .done => none
  | .act f => f t n i s
  | .jump c => match M.body c with
    | .act f => f t n i s
    | _ => none

def step (p : Pool σ ι κ ο) : Move ι κ ε → Option (Event κ ο ε × Pool σ ι κ ο)
  | .go t i => do
    let pr ← p.threads[t]?
    let (o, rest, l) ← M.resume t p.threads.length i p.shared pr
    some (.op t o, ⟨M.effect t o p.shared, p.threads.set t rest ++ l.map M.body⟩)
  | .call c =>
    if M.accepts c p.shared then some (.call c, ⟨p.shared, p.threads ++ [M.body c]⟩) else none
  | .env x => do
    let (s, l) ← M.env x p.threads.length p.shared
    let old := if M.halts x then p.threads.map fun _ => .done else p.threads
    some (.env x, ⟨s, old ++ l.map M.body⟩)

inductive Run (K : σ → Event κ ο ε → Prop) (s₀ : σ) : Pool σ ι κ ο → Prop where
  | start : Run K s₀ ⟨s₀, []⟩
  | step {p p' : Pool σ ι κ ο} {m : Move ι κ ε} {ev : Event κ ο ε} :
      Run K s₀ p → M.step p m = some (ev, p') → K p.shared ev → Run K s₀ p'

inductive Path (K : σ → Event κ ο ε → Prop) (s₀ : σ) : σ → Prop where
  | start : Path K s₀ s₀
  | op {s : σ} {t : Nat} {o : ο} : Path K s₀ s → K s (.op t o) → Path K s₀ (M.effect t o s)
  | env {s s' : σ} {x : ε} {n : Nat} {l : List κ} :
      Path K s₀ s → K s (.env x) → M.env x n s = some (s', l) → Path K s₀ s'

variable {M} {K K' : σ → Event κ ο ε → Prop} {s₀ s : σ} {p p' : Pool σ ι κ ο}

theorem step_go {t : Nat} {i : ι} {ev : Event κ ο ε} (h : M.step p (.go t i) = some (ev, p')) :
    ∃ pr o rest l, p.threads[t]? = some pr ∧
      M.resume t p.threads.length i p.shared pr = some (o, rest, l) ∧ ev = .op t o ∧
      p' = ⟨M.effect t o p.shared, p.threads.set t rest ++ l.map M.body⟩ := by
  simp only [step, bind_eq_bind, bind_eq_some_iff] at h
  obtain ⟨pr, hpr, ⟨o, rest, l⟩, hres, h⟩ := h
  simp only [some.injEq, Prod.mk.injEq] at h
  exact ⟨pr, o, rest, l, hpr, hres, h.1.symm, h.2.symm⟩

theorem step_call {c : κ} {ev : Event κ ο ε} (h : M.step p (.call c) = some (ev, p')) :
    M.accepts c p.shared = true ∧ ev = .call c ∧ p' = ⟨p.shared, p.threads ++ [M.body c]⟩ := by
  simp only [step] at h
  split at h
  · rename_i hc
    simp only [some.injEq, Prod.mk.injEq] at h
    exact ⟨hc, h.1.symm, h.2.symm⟩
  · cases h

theorem step_env {x : ε} {ev : Event κ ο ε} (h : M.step p (.env x) = some (ev, p')) :
    ∃ s l, M.env x p.threads.length p.shared = some (s, l) ∧ ev = .env x ∧
      p' = ⟨s, (if M.halts x then p.threads.map fun _ => .done else p.threads) ++
        l.map M.body⟩ := by
  simp only [step, bind_eq_bind, bind_eq_some_iff] at h
  obtain ⟨⟨s, l⟩, henv, h⟩ := h
  simp only [some.injEq, Prod.mk.injEq] at h
  exact ⟨s, l, henv, h.1.symm, h.2.symm⟩

theorem Run.mono (hK : ∀ s ev, K s ev → K' s ev) (h : M.Run K s₀ p) : M.Run K' s₀ p := by
  induction h with
  | start => exact .start
  | step _ hm hev ih => exact .step ih hm (hK _ _ hev)

theorem Run.path (h : M.Run K s₀ p) : M.Path K s₀ p.shared := by
  induction h with
  | start => exact .start
  | @step p p' m ev _ hm hev ih =>
    cases m with
    | go t i =>
      obtain ⟨pr, o, rest, l, -, -, rfl, rfl⟩ := step_go hm
      exact .op ih hev
    | call c =>
      obtain ⟨-, rfl, rfl⟩ := step_call hm
      exact ih
    | env x =>
      obtain ⟨s, l, henv, rfl, rfl⟩ := step_env hm
      exact .env ih hev henv

theorem Path.invariant {I : σ → Prop} (h₀ : I s₀) (hop : ∀ s t o, I s → K s (.op t o) → I (M.effect t o s))
    (henv : ∀ s x n s' l, I s → K s (.env x) → M.env x n s = some (s', l) → I s') (h : M.Path K s₀ s) : I s := by
  induction h with
  | start => exact h₀
  | op _ hev ih => exact hop _ _ _ ih hev
  | env _ hev hx ih => exact henv _ _ _ _ _ ih hev hx

def execWith (ok : σ → Event κ ο ε → Bool) (M : Machine σ ι κ ο ε) :
    List (Move ι κ ε) → Pool σ ι κ ο → Option (Pool σ ι κ ο)
  | [], p => some p
  | m :: ms, p => (M.step p m).bind fun r =>
      if ok p.shared r.1 then execWith ok M ms r.2 else none

theorem Run.execWith {ok : σ → Event κ ο ε → Bool} (hok : ∀ s ev, ok s ev = true → K s ev)
    {ms : List (Move ι κ ε)} (h : M.Run K s₀ p) (hx : Machine.execWith ok M ms p = some p') :
    M.Run K s₀ p' := by
  induction ms generalizing p with
  | nil =>
    simp only [Machine.execWith, some.injEq] at hx
    exact hx ▸ h
  | cons m ms ih =>
    simp only [Machine.execWith, bind_eq_some_iff] at hx
    obtain ⟨⟨ev, q⟩, hm, hx⟩ := hx
    split at hx
    · exact ih (.step h hm (hok _ _ ‹_›)) hx
    · cases hx

end Machine

section History
variable {α : Type} {p : α → Bool} {x y : α} {l : List α}

/-- Of a history, newest event first, what came after the last event that satisfies `p`. -/
def since (p : α → Bool) (l : List α) : List α := l.takeWhile fun x => !p x

theorem since_cons_of_neg (h : p x = false) : since p (x :: l) = x :: since p l := by
  rw [since, takeWhile_cons, if_pos (by rw [h]; rfl)]
  rfl

theorem since_cons_of_pos (h : p x = true) : since p (x :: l) = [] := by
  rw [since, takeWhile_cons, if_neg (by rw [h]; nofun)]

theorem since_subset : since p l ⊆ l := fun _ h => takeWhile_subset _ h

theorem mem_since_cons (h : p x = false) (hy : y ∈ since p l) : y ∈ since p (x :: l) := by
  rw [since_cons_of_neg h]
  exact mem_cons_of_mem x hy

theorem self_mem_since (h : p x = false) : x ∈ since p (x :: l) := by
  rw [since_cons_of_neg h]
  exact mem_cons_self

end History

end VmManager.Interleaving
