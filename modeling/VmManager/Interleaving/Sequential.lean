import Mathlib.Data.Option.Basic

/-! Code that runs by itself on a state, may fail and may run forever. The rules are those of total
correctness: the code returns, with a result as promised or with an error where one is allowed. -/
namespace VmManager.Interleaving
open Option

abbrev Sequential (σ ε α : Type) := ExceptT ε (StateT σ Option) α

namespace Sequential
variable {σ ε δ α β : Type}

def exec (x : Sequential σ ε α) (s : σ) : Option (Except ε α × σ) := (ExceptT.run x).run s

def command (f : σ → Except ε α × σ) : Sequential σ ε α := ExceptT.mk fun s => some (f s)

def ofExcept (x : Except ε α) : Sequential σ ε α := command fun s => (x, s)

def forever : Sequential σ ε α := ExceptT.mk fun _ => none

def mapError (f : ε → δ) (x : Sequential σ ε α) : Sequential σ δ α :=
  ExceptT.mk fun s => (x.exec s).map fun r => (r.1.mapError f, r.2)

/-- Go's defer, for code whose own error nobody reads. -/
def deferring (after : Sequential σ δ Unit) (x : Sequential σ ε α) : Sequential σ ε α :=
  ExceptT.mk fun s => (x.exec s).bind fun r => (after.exec r.2).map fun e => (r.1, e.2)

def Outcome (Q : α → Prop) (E : ε → Prop) : Except ε α → Prop
  | .ok a => Q a
  | .error err => E err

/-- Where the invariant holds the code returns, with `Q` of its result or with `E` of its error, and the
invariant holds again. -/
def Meets (I : σ → Prop) (x : Sequential σ ε α) (Q : α → Prop) (E : ε → Prop) : Prop :=
  ∀ s, I s → ∃ r s', x.exec s = some (r, s') ∧ I s' ∧ Outcome Q E r

variable {I : σ → Prop} {Q : α → Prop} {R : β → Prop} {E F : ε → Prop}

theorem exec_bind (x : Sequential σ ε α) (f : α → Sequential σ ε β) (s : σ) :
    (x >>= f).exec s = (x.exec s).bind fun r => match r.1 with
      | .ok a => (f a).exec r.2
      | .error err => some (.error err, r.2) := by
  show ((ExceptT.run x).run s).bind _ = _
  unfold exec
  cases (ExceptT.run x).run s with
  | none => rfl
  | some r =>
    obtain ⟨r, s'⟩ := r
    cases r <;> rfl

theorem exec_bind_ok {x : Sequential σ ε α} {f : α → Sequential σ ε β} {s s'' : σ} {b : β}
    (h : (x >>= f).exec s = some (.ok b, s'')) :
    ∃ a s', x.exec s = some (.ok a, s') ∧ (f a).exec s' = some (.ok b, s'') := by
  obtain ⟨⟨r, s'⟩, hr, hf⟩ := bind_eq_some_iff.1 h
  cases r with
  | ok a => exact ⟨a, s', hr, hf⟩
  | error err => cases hf

theorem exec_tryCatch (x : Sequential σ ε α) (f : ε → Sequential σ ε α) (s : σ) :
    (tryCatch x f).exec s = (x.exec s).bind fun r => match r.1 with
      | .ok a => some (.ok a, r.2)
      | .error err => (f err).exec r.2 := by
  show ((ExceptT.run x).run s).bind _ = _
  unfold exec
  cases (ExceptT.run x).run s with
  | none => rfl
  | some r =>
    obtain ⟨r, s'⟩ := r
    cases r <;> rfl

@[simp] theorem exec_command (f : σ → Except ε α × σ) (s : σ) : (command f).exec s = some (f s) := rfl

@[simp] theorem exec_mapError (f : ε → δ) (x : Sequential σ ε α) (s : σ) :
    (mapError f x).exec s = (x.exec s).map fun r => (r.1.mapError f, r.2) := rfl

namespace Meets

theorem pure {a : α} (h : Q a) : Meets I (Pure.pure a : Sequential σ ε α) Q E :=
  fun s hs => ⟨.ok a, s, rfl, hs, h⟩

theorem throw {err : ε} (h : E err) : Meets I (MonadExcept.throw err : Sequential σ ε α) Q E :=
  fun s hs => ⟨.error err, s, rfl, hs, h⟩

theorem bind {x : Sequential σ ε α} {f : α → Sequential σ ε β} (hx : Meets I x Q E)
    (hf : ∀ a, Q a → Meets I (f a) R E) : Meets I (x >>= f) R E := by
  intro s hs
  obtain ⟨r, s', hr, hs', ho⟩ := hx s hs
  rw [exec_bind, hr]
  cases r with
  | ok a => exact hf a ho s' hs'
  | error err => exact ⟨.error err, s', rfl, hs', ho⟩

theorem tryCatch {x : Sequential σ ε α} {f : ε → Sequential σ ε α} (hx : Meets I x Q F)
    (hf : ∀ err, F err → Meets I (f err) Q E) : Meets I (MonadExcept.tryCatch x f) Q E := by
  intro s hs
  obtain ⟨r, s', hr, hs', ho⟩ := hx s hs
  rw [exec_tryCatch, hr]
  cases r with
  | ok a => exact ⟨.ok a, s', rfl, hs', ho⟩
  | error err => exact hf err ho s' hs'

theorem command {f : σ → Except ε α × σ} (hkeeps : ∀ s, I s → I (f s).2) (hok : ∀ s a, I s → (f s).1 = .ok a → Q a)
    (herr : ∀ s err, I s → (f s).1 = .error err → E err) : Meets I (command f) Q E := by
  intro s hs
  refine ⟨(f s).1, (f s).2, rfl, hkeeps s hs, ?_⟩
  cases hr : (f s).1 with
  | ok a => exact hok s a hs hr
  | error err => exact herr s err hs hr

theorem ofExcept {x : Except ε α} (hok : ∀ a, x = .ok a → Q a) (herr : ∀ err, x = .error err → E err) :
    Meets I (ofExcept x : Sequential σ ε α) Q E := by
  apply command
  · exact fun s hs => hs
  · exact fun _ a _ => hok a
  · exact fun _ err _ => herr err

theorem mapError {x : Sequential σ ε α} {f : ε → δ} {E : δ → Prop}
    (h : Meets I x Q fun err => E (f err)) : Meets I (mapError f x) Q E := by
  intro s hs
  obtain ⟨r, s', hr, hs', ho⟩ := h s hs
  refine ⟨r.mapError f, s', by rw [exec_mapError, hr]; rfl, hs', ?_⟩
  cases r with
  | ok a => exact ho
  | error err => exact ho

theorem deferring {after : Sequential σ δ Unit} {x : Sequential σ ε α} (hx : Meets I x Q E)
    (hafter : Meets I after (fun _ => True) fun _ => True) : Meets I (deferring after x) Q E := by
  intro s hs
  obtain ⟨r, s', hr, hs', ho⟩ := hx s hs
  obtain ⟨r', s'', hr', hs'', -⟩ := hafter s' hs'
  refine ⟨r, s'', ?_, hs'', ho⟩
  show ((x.exec s).bind fun r => (after.exec r.2).map fun e => (r.1, e.2)) = _
  rw [hr, bind_some, hr', map_some]

end Meets

end Sequential

end VmManager.Interleaving
