import VmManager.Interleaving.Stepper
import VmManager.Vm.Coherence

/-! The waiters of Create. A broadcast closes the change channel of the service and makes a new one, so
the channels of one vm-manager are numbered by the broadcasts before them. A goroutine in `waitFor`
copies the record and takes the channel in one critical section, and sleeps until that channel is
closed. Every critical section that changes what `reached` says of a record broadcasts: a waiter never
sleeps on a copy that is out of date for its milestone. -/
namespace VmManager.Vm
open Encoding Attest Interleaving List Option Bool
variable {cfg : Config} {s s' : System} {t e ch : Nat} {op : Op} {w : WaitFor} {ev : Event}
  {m : WaiterMove} {r : VM}

def Update.broadcasts : Update → Bool
  | .volume _ | .leased _ _ | .reassigned _ | .reattachFailed _ | .resaved => false
  | _ => true

def Op.broadcasts : Op → Bool
  | .update _ u => u.broadcasts
  | .track _ _ _ | .exited _ _ _ _ _ | .remove _ | .loaded => true
  | _ => false

def Happening.broadcasts : Happening → Bool
  | .did _ op _ => op.broadcasts
  | .outside _ => false

namespace System

/-- The number of the current change channel: how often this vm-manager has replaced it. -/
def changed (s : System) : Nat := (since Happening.isCrash s.hist).countP Happening.broadcasts

def isClosed (s : System) (ch : Nat) : Bool := ch < s.changed

theorem changed_effect (s : System) (t : Nat) (op : Op) :
    (s.effect t op).changed = s.changed + if op.broadcasts then 1 else 0 := by
  have hhist : since Happening.isCrash (s.effect t op).hist =
      s.log t op :: since Happening.isCrash s.hist := since_cons_of_neg rfl
  rw [changed, hhist, countP_cons]
  rfl

theorem changed_outside {x : Outside} {n : Nat} (hx : s.outside n x = some s') (hne : x ≠ .crash) :
    ((s'.noting x s) : System).changed = s.changed := by
  have hcrash : (Happening.outside x).isCrash = false := by
    cases x with
    | crash => exact absurd rfl hne
    | _ => rfl
  have hhist : since Happening.isCrash (.outside x :: s.hist) =
      .outside x :: since Happening.isCrash s.hist := since_cons_of_neg hcrash
  rw [changed, hhist, countP_cons]
  rfl

end System

theorem reached_update {u : Update} (r : VM) (now : Nat) (hu : u.broadcasts = false)
    (hl : u.endsLoading = false) : reached w (r.update now u) = reached w r := by
  cases u with
  | volume | leased | reassigned | resaved => rfl
  | reattachFailed => cases hl
  | _ => cases hu

theorem Inv.reached_effect (hi : Inv s) (hg : op.Guard cfg s t) (hs : s.serving = true)
    (ha : s.Alive e) (hq : op.broadcasts = false) :
    reached w ((s.effect t op).record e) = reached w (s.record e) := by
  rw [hi.record_effect hg fun _ => (hi.alive_lt ha).ne]
  cases hw : op.writes s e with
  | none => rfl
  | some u =>
    rcases Op.writes_cases hw with rfl | ⟨phase, h, rfl, -⟩ | ⟨p, exit, timeout, c, rfl, -⟩
    · have hload : u.endsLoading = false := by
        cases u with
        | reattachFailed err =>
          have hloader : s.loader = some t := hg.2.1
          rw [hi.serving hs] at hloader
          cases hloader
        | _ => rfl
      exact reached_update (s.record e) s.clock hq hload
    · cases hq
    · cases hq

theorem StepOf.broadcasts (hi : Inv s) (hs : s.serving = true)
    (ha : s.Alive e) (h : StepOf cfg s ev s') (hne : ev ≠ .env .crash) :
    (s'.serving = true ∧ s'.Alive e) ∧ (s.changed < s'.changed ∨
      (s'.changed = s.changed ∧ ∀ w, reached w (s'.record e) = reached w (s.record e))) := by
  cases h with
  | @op t o hg =>
    have hkeep : (s.effect t o).serving = true ∧ (s.effect t o).Alive e :=
      ⟨Inv.serving_mono s t o hs, hi.alive_effect hg ha⟩
    have hcount := s.changed_effect t o
    cases hb : o.broadcasts with
    | true =>
      rw [hb, if_pos rfl] at hcount
      exact ⟨hkeep, .inl (by omega)⟩
    | false =>
      rw [hb, if_neg Bool.false_ne_true] at hcount
      exact ⟨hkeep, .inr ⟨hcount, fun w => hi.reached_effect hg hs ha hb⟩⟩
  | call => exact ⟨⟨hs, ha⟩, .inr ⟨rfl, fun _ => rfl⟩⟩
  | @env x n s₁ hx =>
    have hx' : x ≠ .crash := fun h => hne (congrArg Event.env h)
    have hcount := System.changed_outside hx hx'
    obtain ⟨_, _, _, _, _, rfl, -⟩ := System.outside_eq hx hx'
    exact ⟨⟨hs, ha⟩, .inr ⟨hcount, fun _ => rfl⟩⟩

/-- A goroutine in `waitFor`: at the head of its loop, with the record and the channel it took in this
round, and at its end. `gaveUp` is a timeout or the end of the context, and `gone` the end of the whole
vm-manager. -/
inductive Waiter where
  | looking
  | holding (r : VM) (ch : Nat)
  | returned (r : VM) (err : Except String Unit)
  | gaveUp (r : VM)
  | gone

inductive WaiterMove where
  | look | settle | wake | giveUp

def Waiter.step (e : Nat) (w : WaitFor) (s : System) : Waiter → WaiterMove → Option Waiter
  | .looking, .look =>
    some (if w = .none then .returned (s.record e) (.ok ()) else .holding (s.record e) s.changed)
  | .holding r _, .settle => if (reached w r).1 then some (.returned r (reached w r).2) else none
  | .holding r ch, .wake => if !(reached w r).1 && s.isClosed ch then some .looking else none
  | .holding r _, .giveUp => if (reached w r).1 then none else some (.gaveUp r)
  | _, _ => none

def Waiter.after (v : Waiter) : Event → Waiter
  | .env .crash => .gone
  | _ => v

theorem Waiter.after_of_ne (v : Waiter) (h : ev ≠ .env .crash) :
    v.after ev = v := by
  unfold after
  split
  · exact absurd rfl h
  · rfl

/-- A service with a goroutine in `waitFor`. `current` holds the records the VM had at the instants of
the call so far. -/
structure Waiting where
  pool : Pool
  waiter : Waiter
  current : List VM

namespace Waiting

def begins (pool : Pool) (e : Nat) : Waiting where
  pool := pool
  waiter := .looking
  current := [pool.shared.record e]

def step (cfg : Config) (e : Nat) (w : WaitFor) (x : Waiting) : Move ⊕ WaiterMove → Option Waiting
  | .inl m => ((service cfg).step x.pool m).map fun (ev, pool) =>
    { pool := pool, waiter := x.waiter.after ev, current := pool.shared.record e :: x.current }
  | .inr m => (x.waiter.step e w x.pool.shared m).map fun v => { x with waiter := v }

def Begins (cfg : Config) (e : Nat) (x : Waiting) : Prop :=
  ∃ pool, Runs cfg (fun _ _ => True) pool ∧ pool.shared.serving = true ∧ pool.shared.Alive e ∧ x = begins pool e

end Waiting

def waitRound (e : Nat) (w : WaitFor) (r : VM) : Go Unit := do
  if (reached w r).1 then perform .returned
  else
    let again ← Proc.step fun _ i _ => match i with
      | .ok => some (.read, true)
      | .err _ => some (.read, false)
      | _ => none
    if again then Proc.goto (.waitFor e w) else perform .returned

namespace Waiter

def prog (e : Nat) (w : WaitFor) : Waiter → Program
  | .looking => .jump (.waitFor e w)
  | .holding r _ => (waitRound e w r).toProg
  | .returned _ _ | .gaveUp _ => (perform .returned).toProg
  | .gone => .done

theorem prog_holding_of_reached (hr : (reached w r).1 = true) :
    prog e w (.holding r ch) = (perform .returned).toProg := by
  simp only [prog, waitRound, hr, if_true]

theorem resume_holding (hr : (reached w r).1 = false) (n : Nat) (again : Bool) :
    ∃ i, (service cfg).resume t n i s (prog e w (.holding r ch)) =
      some (.read, if again then .jump (.waitFor e w) else (perform .returned).toProg, []) := by
  have hprog : prog e w (.holding r ch) = (Proc.step (fun _ i _ => match i with
      | .ok => some (Op.read, true)
      | .err _ => some (.read, false)
      | _ => none) >>= fun again : Bool =>
        if again then Proc.goto (.waitFor e w) else perform .returned : Go Unit).toProg := by
    simp only [prog, waitRound, hr, false_eq_true, if_false]
  rw [hprog]
  cases again with
  | true => exact ⟨.ok, rfl⟩
  | false => exact ⟨.err "", rfl⟩

theorem step_resumes {v v' : Waiter} (n : Nat) (h : v.step e w s m = some v') : v'.prog e w = v.prog e w ∨
      ∃ i, (service cfg).resume t n i s (v.prog e w) = some (.read, v'.prog e w, []) := by
  cases v with
  | looking =>
    cases m with
    | look =>
      have hlook : (service cfg).resume t n .ok s (prog e w .looking) =
          some (.read, (waitRound e w (s.record e)).toProg, []) := rfl
      refine .inr ⟨.ok, hlook.trans ?_⟩
      cases h
      split
      · rename_i hw
        subst hw
        have hnone : (reached .none (s.record e)).1 = true := by
          unfold reached
          split <;> rfl
        rw [show (waitRound e .none (s.record e)).toProg = prog e .none (.holding (s.record e) 0) from
          rfl, prog_holding_of_reached hnone]
        rfl
      · rfl
    | _ => cases h
  | holding r ch =>
    cases hr : (reached w r).1 with
    | true =>
      cases m with
      | settle =>
        simp only [step, hr, if_true, some.injEq] at h
        subst h
        exact .inl (prog_holding_of_reached hr).symm
      | look => cases h
      | wake | giveUp => simp [step, hr] at h
    | false =>
      cases m with
      | wake =>
        simp only [step, hr, Bool.not_false, Bool.true_and] at h
        split at h <;> cases h
        exact .inr (resume_holding hr n true)
      | giveUp =>
        simp only [step, hr, false_eq_true, if_false, some.injEq] at h
        subst h
        exact .inr (resume_holding hr n false)
      | look => cases h
      | settle => simp [step, hr] at h
  | returned | gaveUp | gone => cases h

end Waiter

/-- What a waiter relies on: the copy it holds is good for every milestone while its channel is open,
and all it has is from an instant of its call. -/
structure Waiting.Awake (cfg : Config) (e : Nat) (w : WaitFor) (x : Waiting) : Prop where
  runs : Runs cfg (fun _ _ => True) x.pool
  serving : x.waiter ≠ .gone → x.pool.shared.serving = true ∧ x.pool.shared.Alive e
  current : x.pool.shared.record e ∈ x.current
  holding : ∀ r ch, x.waiter = .holding r ch → w ≠ .none ∧ r ∈ x.current ∧
    ch ≤ x.pool.shared.changed ∧ (x.pool.shared.isClosed ch = false →
      ∀ w, reached w (x.pool.shared.record e) = reached w r)
  returned : ∀ r err, x.waiter = .returned r err → r ∈ x.current ∧
    if w = .none then err = .ok () else reached w r = (true, err)

namespace Waiting.Awake
variable {x x' : Waiting}

theorem of_begins (h : Begins cfg e x) : Awake cfg e w x := by
  obtain ⟨pool, hruns, hs, ha, rfl⟩ := h
  exact {
    runs := hruns
    serving := fun _ => ⟨hs, ha⟩
    current := mem_singleton_self _
    holding := fun _ _ h => by cases h
    returned := fun _ _ h => by cases h }

theorem service_step {m : Move} (h : Awake cfg e w x)
    (hm : Waiting.step cfg e w x (.inl m) = some x') : Awake cfg e w x' := by
  simp only [Waiting.step, map_eq_some_iff] at hm
  obtain ⟨⟨ev, pool⟩, hstep, rfl⟩ := hm
  have hruns : Runs cfg (fun _ _ => True) pool := Machine.Run.step h.runs hstep trivial
  have hof := Runs.step h.runs hstep
  by_cases hne : ev = .env .crash
  · subst hne
    exact {
      runs := hruns
      serving := fun hgone => absurd rfl hgone
      current := mem_cons_self
      holding := fun _ _ h => by cases h
      returned := fun _ _ h => by cases h }
  · rw [x.waiter.after_of_ne hne]
    exact {
      runs := hruns
      serving := fun hgone => by
        obtain ⟨hs, ha⟩ := h.serving hgone
        exact (StepOf.broadcasts h.runs.inv hs ha hof hne).1
      current := mem_cons_self
      holding := fun r ch hhold => by
        obtain ⟨hw, hmem, hle, hgood⟩ := h.holding r ch hhold
        have hlive := h.serving (by rw [show x.waiter = .holding r ch from hhold]; nofun)
        have hmove := (StepOf.broadcasts h.runs.inv hlive.1 hlive.2 hof hne).2
        have hgrow : x.pool.shared.changed ≤ pool.shared.changed := by omega
        refine ⟨hw, mem_cons_of_mem _ hmem, hle.trans hgrow, fun hopen w' => ?_⟩
        simp only [System.isClosed, decide_eq_false_iff_not, not_lt] at hopen hgood
        obtain hlt | ⟨hcount, hreach⟩ := hmove
        · omega
        · rw [hreach]
          exact hgood (by omega) w'
      returned := fun r err hret => by
        obtain ⟨hmem, herr⟩ := h.returned r err hret
        exact ⟨mem_cons_of_mem _ hmem, herr⟩ }

theorem waiter_step (h : Awake cfg e w x) (hm : Waiting.step cfg e w x (.inr m) = some x') : Awake cfg e w x' := by
  simp only [Waiting.step, map_eq_some_iff] at hm
  obtain ⟨v, hv, rfl⟩ := hm
  have hlive : x.pool.shared.serving = true ∧ x.pool.shared.Alive e := by
    apply h.serving
    intro hgone
    rw [hgone] at hv
    cases hv
  have hbase : (∀ r ch, v = .holding r ch → w ≠ .none ∧ r ∈ x.current ∧
        ch ≤ x.pool.shared.changed ∧ (x.pool.shared.isClosed ch = false →
          ∀ w, reached w (x.pool.shared.record e) = reached w r)) →
      (∀ r err, v = .returned r err → r ∈ x.current ∧ if w = .none then err = .ok () else reached w r = (true, err)) →
      Awake cfg e w { x with waiter := v } :=
    fun hh hr => { h with serving := fun _ => hlive, holding := hh, returned := hr }
  cases hx : x.waiter with
  | looking =>
    rw [hx] at hv
    cases m with
    | look =>
      obtain rfl := some.inj hv
      by_cases hw : w = .none
      · rw [if_pos hw] at hbase ⊢
        refine hbase (fun _ _ h => by cases h) fun r err hret => ?_
        cases hret
        exact ⟨h.current, (if_pos hw).mpr rfl⟩
      · rw [if_neg hw] at hbase ⊢
        refine hbase (fun r ch hhold => ?_) fun _ _ h => by cases h
        cases hhold
        exact ⟨hw, h.current, le_rfl, fun _ _ => rfl⟩
    | _ => cases hv
  | holding r ch =>
    rw [hx] at hv
    obtain ⟨hw, hmem, -⟩ := h.holding r ch hx
    cases m with
    | look => cases hv
    | settle =>
      simp only [Waiter.step] at hv
      split at hv
      · rename_i hr
        obtain rfl := some.inj hv
        refine hbase (fun _ _ h => by cases h) fun r' err hret => ?_
        cases hret
        rw [if_neg hw]
        exact ⟨hmem, Prod.ext hr rfl⟩
      · cases hv
    | wake =>
      simp only [Waiter.step] at hv
      split at hv
      · obtain rfl := some.inj hv
        exact hbase (fun _ _ h => by cases h) fun _ _ h => by cases h
      · cases hv
    | giveUp =>
      simp only [Waiter.step] at hv
      split at hv
      · cases hv
      obtain rfl := some.inj hv
      exact hbase (fun _ _ h => by cases h) fun _ _ h => by cases h
  | returned | gaveUp | gone =>
    rw [hx] at hv
    cases hv

theorem step {m : Move ⊕ WaiterMove} (h : Awake cfg e w x)
    (hm : Waiting.step cfg e w x m = some x') : Awake cfg e w x' := by
  cases m with
  | inl m => exact h.service_step hm
  | inr m => exact h.waiter_step hm

end Waiting.Awake

/-- In every run of the service with a goroutine in `waitFor`: when the record has changed for any
milestone since the goroutine copied it, the channel it took with the copy is closed; and what the
goroutine returns, but for a timeout or the end of its context, is what `reached` says of a record that
was current at one instant of the call. Without a milestone it returns such a record and no error,
whatever its state. -/
theorem waiters_woken (cfg : Config) (e : Nat) (w : WaitFor) {x : Waiting}
    (h : Reached (Waiting.step cfg e w) (Waiting.Begins cfg e) (fun _ _ => True) x) :
    (∀ r ch, x.waiter = .holding r ch → ∀ w',
      reached w' (x.pool.shared.record e) ≠ reached w' r → x.pool.shared.isClosed ch = true) ∧
    ∀ r err, x.waiter = .returned r err → r ∈ x.current ∧
      if w = .none then err = .ok () else reached w r = (true, err) := by
  have hawake : Waiting.Awake cfg e w x := h.invariant (I := Waiting.Awake cfg e w)
    (fun _ hb => .of_begins hb) fun _ _ _ hi _ hm => hi.step hm
  refine ⟨fun r ch hhold w' hdiff => ?_, hawake.returned⟩
  by_contra hopen
  exact hdiff ((hawake.holding r ch hhold).2.2.2 (eq_false_iff.2 hopen) w')

namespace Sample

def launched (w : WaitFor) : List Move :=
  withNetwork ++ creates 2 { name := "one", network := "a", waitFor := w } "01" ++ oks 2 2

def installerEnds (code : Int) : List Move :=
  [.env (.exit 0 ⟨code, ""⟩), .go 3 (.exited {})] ++ oks 3 3

def awaited (w : WaitFor) (before : List Move)
    (moves : List (Move ⊕ WaiterMove)) : Option Waiting :=
  (Machine.execWith (fun _ _ => true) (service config) before ⟨{}, []⟩).bind fun pool =>
    if pool.shared.serving && (pool.shared.record 0).serial != 0 then
      execAll (Waiting.step config 0 w) (fun _ _ => true) (.begins pool 0) moves
    else none

theorem reached_of_awaited {w : WaitFor} {before : List Move}
    {moves : List (Move ⊕ WaiterMove)} {x : Waiting} (h : awaited w before moves = some x) :
    Reached (Waiting.step config 0 w) (Waiting.Begins config 0) (fun _ _ => True) x := by
  obtain ⟨pool, hpool, hx⟩ := bind_eq_some_iff.1 h
  split at hx
  · rename_i hlive
    simp only [and_eq_true, bne_iff_ne] at hlive
    have hbegins : Waiting.Begins config 0 (.begins pool 0) :=
      ⟨pool, Runs.exec (fun _ _ _ => trivial) hpool, hlive.1, hlive.2, rfl⟩
    exact Reached.execAll (fun _ _ _ => trivial) (.start hbegins) hx
  · cases hx

def succeeded : Waiter → Bool
  | .returned _ (.ok ()) => true
  | _ => false

def reports : Bool × Except String Unit → Bool
  | (true, .ok ()) => false
  | _ => true

end Sample
open Sample

theorem waiters_woken_installed : ∃ x, awaited .installed (launched .installed)
        ([.inr .look] ++ (installerEnds 0).map .inl ++ [.inr .wake, .inr .look, .inr .settle]) = some x ∧
      ∃ r err, x.waiter = .returned r err ∧ r ∈ x.current ∧ reached .installed r = (true, err) := by
  have hx : (awaited .installed (launched .installed)
      ([.inr .look] ++ (installerEnds 0).map .inl ++
        [.inr .wake, .inr .look, .inr .settle])).any (fun x => match x.waiter with
          | .returned _ _ => true
          | _ => false) = true := by decide +kernel
  obtain ⟨x, hx, hret⟩ := (Option.any_eq_true _ _).1 hx
  refine ⟨x, hx, ?_⟩
  cases hv : x.waiter with
  | returned r err =>
    have hres := (waiters_woken config 0 .installed (reached_of_awaited hx)).2 r err hv
    exact ⟨r, err, rfl, hres.1, hres.2⟩
  | _ =>
    rw [hv] at hret
    cases hret

theorem wait_none_hides_failure : ∃ x, Reached (Waiting.step config 0 .none) (Waiting.Begins config 0)
        (fun _ _ => True) x ∧
      ∃ r, x.waiter = .returned r (.ok ()) ∧ ∀ r ∈ x.current, reached .none r ≠ (true, .ok ()) := by
  have hx : (awaited .none (launched .none ++ installerEnds 1)
      [.inr .look]).any (fun x => succeeded x.waiter &&
        x.current.all fun r => reports (reached .none r)) = true := by decide +kernel
  obtain ⟨x, hx, hall⟩ := (Option.any_eq_true _ _).1 hx
  obtain ⟨hret, hcurrent⟩ := and_eq_true_iff.1 hall
  refine ⟨x, reached_of_awaited hx, ?_⟩
  cases hv : x.waiter with
  | returned r err =>
    rw [hv] at hret
    cases err with
    | ok u =>
      refine ⟨r, rfl, fun r' hr' heq => ?_⟩
      have hno := List.all_eq_true.1 hcurrent r' hr'
      rw [heq] at hno
      cases hno
    | error msg => cases hret
  | _ =>
    rw [hv] at hret
    cases hret

end VmManager.Vm
