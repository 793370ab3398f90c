import VmManager.Interleaving.Stepper

/-! The start of a QEMU as a transient systemd unit: the calls to systemd, the watcher of the unit's main
process and the first connection to QMP. A step is one command, one system call or one channel operation;
commands may fail or time out, with or without effect, the process may end and the caller's context may
end at any time. Which processes this start made is kept for the property. -/
namespace VmManager.Runtime.Launch
open Interleaving
variable {phase : Phase} {w : Watcher} {wrap : String → String} {err : Option String}

inductive UnitState where
  | notFound
  | running (pid : Nat) (ours : Bool)
  | ended (code : Nat)
deriving DecidableEq, Repr

structure Report where
  loaded : Bool
  mainPID : Option Nat
  execMainCode : Nat
deriving DecidableEq, Repr

namespace UnitState

def report : UnitState → Report
  | .notFound => ⟨false, none, 0⟩
  | .running pid _ => ⟨true, some pid, 0⟩
  | .ended code => ⟨true, none, code⟩

def Alive : UnitState → Prop
  | .running _ ours => ours = true
  | _ => False

def isRunning : UnitState → Bool
  | .running .. => true
  | _ => false

def exits (code : Nat) : UnitState → UnitState
  | .running .. => .ended code
  | u => u

def resetFailed : UnitState → UnitState
  | .ended _ => .notFound
  | u => u

instance (u : UnitState) : Decidable u.Alive :=
  match u with
  | .running _ ours => inferInstanceAs (Decidable (ours = true))
  | .notFound | .ended _ => inferInstanceAs (Decidable False)

end UnitState

structure Cmd where
  path : String
  unit : String
  qmpSocket : String

inductive Phase where
  | validating
  | preparing
  | checking
  | showing
  | releasing
  | resetting
  | logging
  | launching
  | confirming
  | opening (r : Report)
  | connecting
  | retrying (err : String)
  | killing (err : String)
  | awaiting (err : String)
  | returned (err : Option String)
deriving DecidableEq, Repr

inductive Watcher where
  | none
  | watching
  | polling
  | settling
  | stopping (expired : Bool)
  | clearing (expired : Bool)
  | finished
deriving DecidableEq, Repr

structure State where
  unit : UnitState
  ctxDone : Bool := false
  phase : Phase := .validating
  watcher : Watcher := .none
  /-- The channel of the instance, closed after `done`. -/
  exited : Bool := false

inductive PidfdOpen where
  | opened
  | esrch
  | failed
deriving DecidableEq, Repr

inductive StartMove where
  | validate (err : Option String)
  | prepare (err : Option String)
  | check (err : Option String)
  | unitShow (err : Option String)
  | release (ok : Bool)
  | reset (ok : Bool)
  | openLog (err : Option String)
  | systemdRun (pid : Nat)
  /-- The command fails or is cut off; the unit may have been started all the same. -/
  | systemdRunFails (err : String) (started : Option Nat)
  | confirm (err : Option String)
  | pidfdOpen (r : PidfdOpen)
  | dial (err : Option String)
  | seesExit (status stderr : String)
  | seesCancel (err : String)
  | seesTimeout (timeout stderr : String)
  | retry
  | kill (err : Option String)
  | await

inductive WatchMove where
  | pidfdReady
  | poll (ok : Bool)
  | exitStatus (ok : Bool)
  | statusTimeout
  | stop (ok : Bool)
  | reset (ok : Bool)
  | forward

inductive Move where
  | cancel
  | exit (code : Nat)
  | start (mv : StartMove)
  | watch (mv : WatchMove)

def State.goto (s : State) (phase : Phase) : State := { s with phase }

def State.fails (s : State) (err : String) : State := s.goto (.returned (some err))

def State.orFails (s : State) (err : Option String) (wrap : String → String) (phase : Phase) : State :=
  match err with
  | some err => s.fails (wrap err)
  | none => s.goto phase

/-- A command under the caller's context cannot succeed once that has ended. -/
def State.allows (s : State) (ok : Bool) : Bool := !(ok && s.ctxDone)

def startStep (c : Cmd) (s : State) (mv : StartMove) : Option State :=
  let starting := fun err => "qemu: start " ++ c.path ++ ": " ++ err
  let launching := fun err => "qemu: start " ++ c.path ++ " as " ++ c.unit ++ ": " ++ err
  match s.phase, mv with
  | .validating, .validate err => some (s.orFails err id .preparing)
  | .preparing, .prepare err => some (s.orFails err id .checking)
  | .checking, .check err =>
    if s.allows err.isNone then some (s.orFails err (fun err => "qemu: " ++ err) .showing) else none
  | .showing, .unitShow err =>
    if !s.allows err.isNone then none
    else match err with
    | some err => some (s.fails (starting err))
    | none =>
      let r := s.unit.report
      if !r.loaded then some (s.goto .logging)
      else match r.mainPID with
      | some pid => some (s.fails (starting ("unit " ++ c.unit ++ " is already running (pid " ++
          toString pid ++ "); is another vm-manager using this state directory?")))
      | none => some (s.goto .releasing)
  | .releasing, .release ok =>
    if s.allows ok then
      some { s with unit := if ok then .notFound else s.unit, phase := .resetting }
    else none
  | .resetting, .reset ok =>
    if s.allows ok then
      some { s with unit := if ok then s.unit.resetFailed else s.unit, phase := .logging }
    else none
  | .logging, .openLog err => some (s.orFails err starting .launching)
  | .launching, .systemdRun pid =>
    if s.allows true ∧ s.unit = .notFound then
      some { s with unit := .running pid true, phase := .confirming }
    else none
  | .launching, .systemdRunFails err started =>
    match started with
    | none => some (s.fails (launching err))
    | some pid =>
      if s.unit = .notFound then some ({ s with unit := .running pid true }.fails (launching err))
      else none
  | .confirming, .confirm err =>
    if s.allows err.isNone then some (s.orFails err launching (.opening s.unit.report)) else none
  | .opening r, .pidfdOpen res =>
    match r.mainPID, res with
    | none, _ => some { s with watcher := .settling, phase := .connecting }
    | some _, .opened => some { s with watcher := .watching, phase := .connecting }
    | some _, .failed => some { s with watcher := .polling, phase := .connecting }
    | some _, .esrch =>
      if s.unit.isRunning then none else some { s with watcher := .settling, phase := .connecting }
  | .connecting, .dial err =>
    match err with
    | none => some (s.goto (.returned none))
    | some err => some (s.goto (.retrying err))
  | .retrying _, .seesExit status stderr =>
    if s.exited then
      some (s.goto (.killing ("qemu exited during start (" ++ status ++ "): " ++ stderr)))
    else none
  | .retrying _, .seesCancel err =>
    if s.ctxDone then some (s.goto (.killing ("qemu start: " ++ err))) else none
  | .retrying err, .seesTimeout timeout stderr =>
    some (s.goto (.killing ("qemu QMP at " ++ c.qmpSocket ++ " did not answer within " ++ timeout ++ ": " ++
      err ++ " (" ++ stderr ++ ")")))
  | .retrying _, .retry => some (s.goto .connecting)
  | .killing err, .kill res =>
    if s.watcher = .finished then some (s.goto (.awaiting err))
    else match res with
    -- the error of Kill is dropped; Start returns its own
    | some _ => some (s.fails err)
    | none => some (s.goto (.awaiting err))
  | .awaiting err, .await => if s.exited then some (s.fails err) else none
  | _, _ => none

def watchStep (s : State) (mv : WatchMove) : Option State :=
  match s.watcher, mv with
  | .watching, .pidfdReady => if s.unit.isRunning then none else some { s with watcher := .settling }
  | .polling, .poll ok =>
    if ok ∧ s.unit.report.mainPID ≠ none then some s else some { s with watcher := .settling }
  | .settling, .exitStatus ok =>
    let r := s.unit.report
    if !ok ∨ !r.loaded ∨ (r.mainPID = none ∧ r.execMainCode ≠ 0) then
      some { s with watcher := .stopping false }
    else some s
  | .settling, .statusTimeout => some { s with watcher := .stopping true }
  | .stopping expired, .stop ok =>
    if ok ∧ expired then none
    else some { s with unit := if ok then .notFound else s.unit, watcher := .clearing expired }
  | .clearing expired, .reset ok =>
    if ok ∧ expired then none
    else some { s with unit := if ok then s.unit.resetFailed else s.unit, watcher := .finished }
  | .finished, .forward => some { s with exited := true }
  | _, _ => none

def step (c : Cmd) (s : State) : Move → Option State
  | .cancel => some { s with ctxDone := true }
  | .exit code => some { s with unit := s.unit.exits code }
  | .start mv => startStep c s mv
  | .watch mv => watchStep s mv

def Starts (c : Cmd) (K : State → Move → Prop) : State → Prop :=
  Reached (step c) (fun s => ∃ unit : UnitState, ¬ unit.Alive ∧ s = { unit }) K

/-- A command that fails has had no effect that is still there: systemd-run has started nothing, and where
show right after it, show of the poller or kill fails, the process has ended. -/
def Completes (s : State) : Move → Prop
  | .start (.systemdRunFails _ started) => started = none
  | .start (.confirm err) => err = none ∨ ¬ s.unit.Alive
  | .start (.kill err) => err = none ∨ ¬ s.unit.Alive
  | .watch (.poll ok) => ok = true ∨ ¬ s.unit.Alive
  | _ => True

variable {c : Cmd} {s s' : State}

namespace UnitState
variable {u : UnitState}

theorem Alive.isRunning (h : u.Alive) : u.isRunning = true := by
  cases u with
  | running pid ours => rfl
  | notFound => cases h
  | ended code => cases h

theorem not_alive_of_report (h : u.report.mainPID = none) : ¬ u.Alive := by
  cases u with
  | running pid ours => cases h
  | notFound => exact id
  | ended code => exact id

theorem Alive.of_exits {code : Nat} (h : (u.exits code).Alive) : u.Alive := by
  cases u with
  | running pid ours => cases h
  | notFound => cases h
  | ended code => cases h

theorem Alive.of_resetFailed (h : u.resetFailed.Alive) : u.Alive := by
  cases u with
  | running pid ours => exact h
  | notFound => cases h
  | ended code => cases h

end UnitState

def Phase.early : Phase → Bool
  | .validating | .preparing | .checking | .showing | .releasing | .resetting | .logging | .launching =>
    true
  | _ => false

def Phase.unwatched : Phase → Bool
  | .confirming | .opening _ => true
  | p => p.early

theorem Phase.unwatched_of_early {p : Phase} (h : p.early = true) : p.unwatched = true := by
  cases p <;> first | rfl | cases h

def Watcher.settled : Watcher → Bool
  | .settling | .stopping _ | .clearing _ | .finished => true
  | _ => false

def Watcher.busy : Watcher → Bool
  | .none | .finished => false
  | _ => true

structure Inv (s : State) : Prop where
  early : s.phase.early = true → ¬ s.unit.Alive
  unwatched : s.phase.unwatched = true → s.watcher = .none
  opening : ∀ r, s.phase = .opening r → r.mainPID = none → ¬ s.unit.Alive
  settled : s.watcher.settled = true → ¬ s.unit.Alive
  exited : s.exited = true → s.watcher = .finished
  returned : ∀ err, s.phase = .returned (some err) → ¬ s.unit.Alive

namespace Inv

theorem start {unit : UnitState} (h : ¬ unit.Alive) : Inv { unit } where
  early := fun _ => h
  unwatched := fun _ => rfl
  opening := nofun
  settled := nofun
  exited := nofun
  returned := nofun

theorem unit {u : UnitState} (h : Inv s) (hu : u.Alive → s.unit.Alive) : Inv { s with unit := u } where
  early := fun he ha => h.early he (hu ha)
  unwatched := h.unwatched
  opening := fun r hr hn ha => h.opening r hr hn (hu ha)
  settled := fun hw ha => h.settled hw (hu ha)
  exited := h.exited
  returned := fun err hr ha => h.returned err hr (hu ha)

theorem fails {err : String} (h : Inv s) (hdead : ¬ s.unit.Alive) : Inv (s.fails err) where
  early := nofun
  unwatched := nofun
  opening := nofun
  settled := h.settled
  exited := h.exited
  returned := fun _ _ => hdead

theorem goEarly (h : Inv s) (phase : Phase) (hfrom : s.phase.early = true) (hto : phase.early = true) :
    Inv (s.goto phase) where
  early := fun _ => h.early hfrom
  unwatched := fun _ => h.unwatched (Phase.unwatched_of_early hfrom)
  opening := fun r hr => by
    subst hr
    cases hto
  settled := h.settled
  exited := h.exited
  returned := fun err hr => by
    subst hr
    cases hto

theorem goWatched (h : Inv s) (hto : phase.unwatched = false)
    (hret : ∀ err, phase ≠ .returned (some err)) : Inv (s.goto phase) where
  early := fun he => by cases hto.symm.trans (Phase.unwatched_of_early he)
  unwatched := fun hu => by cases hto.symm.trans hu
  opening := fun r hr => by
    subst hr
    cases hto
  settled := h.settled
  exited := h.exited
  returned := fun err hr => absurd hr (hret err)

theorem orFails (h : Inv s) (hdead : err ≠ none → ¬ s.unit.Alive) (hnext : Inv (s.goto phase)) :
    Inv (s.orFails err wrap phase) := by
  cases err with
  | none => exact hnext
  | some err => exact h.fails (hdead nofun)

theorem watcher (h : Inv s) (hphase : s.phase.unwatched = false)
    (hw : w.settled = true → ¬ s.unit.Alive) (hexited : s.exited = true → w = .finished) :
    Inv { s with watcher := w } where
  early := h.early
  unwatched := fun hu => by cases hphase.symm.trans hu
  opening := h.opening
  settled := hw
  exited := hexited
  returned := h.returned

theorem opened (h : Inv s) (hphase : s.phase.unwatched = true)
    (hw : w.settled = true → ¬ s.unit.Alive) : Inv { s with watcher := w, phase := .connecting } where
  early := nofun
  unwatched := nofun
  opening := nofun
  settled := hw
  exited := fun he => by cases (h.unwatched hphase).symm.trans (h.exited he)
  returned := nofun

theorem launched {pid : Nat} (h : Inv s) (hphase : s.phase.early = true) :
    Inv { s with unit := .running pid true, phase := .confirming } := by
  have hnone : s.watcher = .none := h.unwatched (Phase.unwatched_of_early hphase)
  exact {
    early := nofun
    unwatched := fun _ => hnone
    opening := nofun
    settled := fun hw => by
      rw [hnone] at hw
      cases hw
    exited := h.exited
    returned := nofun }

theorem orFailsEarly (h : Inv s)
    (hfrom : s.phase.early = true) (hto : phase.early = true) : Inv (s.orFails err wrap phase) :=
  h.orFails (fun _ => h.early hfrom) (h.goEarly _ hfrom hto)

theorem startStep {mv : StartMove} (h : Inv s) (hk : Completes s (.start mv))
    (hs : startStep c s mv = some s') : Inv s' := by
  have hearly : ∀ {p : Phase}, s.phase = p → p.early = true → s.phase.early = true :=
    fun heq hp => heq ▸ hp
  unfold Launch.startStep at hs
  dsimp only at hs
  split at hs
  · cases hs
    exact h.orFailsEarly (hearly ‹_› rfl) rfl
  · cases hs
    exact h.orFailsEarly (hearly ‹_› rfl) rfl
  · split at hs <;> cases hs
    exact h.orFailsEarly (hearly ‹_› rfl) rfl
  · -- show before the start
    have hfrom := hearly ‹s.phase = .showing› rfl
    split at hs
    · cases hs
    split at hs
    · cases hs
      exact h.fails (h.early hfrom)
    · split at hs
      · cases hs
        exact h.goEarly _ hfrom rfl
      · split at hs <;> cases hs
        · exact h.fails (h.early hfrom)
        · exact h.goEarly _ hfrom rfl
  · -- release of a stale unit
    have hfrom := hearly ‹s.phase = .releasing› rfl
    split at hs <;> cases hs
    refine (h.goEarly .resetting hfrom rfl).unit ?_
    split
    · exact False.elim
    · exact id
  · have hfrom := hearly ‹s.phase = .resetting› rfl
    split at hs <;> cases hs
    refine (h.goEarly .logging hfrom rfl).unit ?_
    split
    · exact UnitState.Alive.of_resetFailed
    · exact id
  · cases hs
    exact h.orFailsEarly (hearly ‹_› rfl) rfl
  · split at hs <;> cases hs
    exact h.launched (hearly ‹_› rfl)
  · -- systemd-run fails
    split at hs
    · cases hs
      exact h.fails (h.early (hearly ‹_› rfl))
    · cases hk
  · -- show after the start
    have hfrom : s.phase.unwatched = true := by
      rw [‹s.phase = .confirming›]
      rfl
    split at hs <;> cases hs
    refine h.orFails (fun hne => hk.resolve_left hne) ?_
    exact {
      early := nofun
      unwatched := fun _ => h.unwatched hfrom
      opening := fun r hr hn => by
        cases hr
        exact UnitState.not_alive_of_report hn
      settled := h.settled
      exited := h.exited
      returned := nofun }
  · rename_i r res heq
    have hfrom : s.phase.unwatched = true := by
      rw [heq]
      rfl
    split at hs
    · cases hs
      exact h.opened hfrom fun _ => h.opening r heq ‹_›
    · cases hs
      exact h.opened hfrom nofun
    · cases hs
      exact h.opened hfrom nofun
    · split at hs <;> cases hs
      rename_i hrun
      exact h.opened hfrom fun _ ha => hrun ha.isRunning
  · split at hs <;> cases hs <;> exact h.goWatched rfl nofun
  · split at hs <;> cases hs
    exact h.goWatched rfl nofun
  · split at hs <;> cases hs
    exact h.goWatched rfl nofun
  · cases hs
    exact h.goWatched rfl nofun
  · cases hs
    exact h.goWatched rfl nofun
  · -- Kill
    split at hs
    · cases hs
      exact h.goWatched rfl nofun
    · split at hs <;> cases hs
      · exact h.fails (hk.resolve_left nofun)
      · exact h.goWatched rfl nofun
  · -- the instance's channel is closed
    split at hs <;> cases hs
    rename_i hexited
    have hfinished := h.exited hexited
    exact h.fails (h.settled (by rw [hfinished]; rfl))
  · cases hs

theorem goSettled (h : Inv s) (hbusy : s.watcher.busy = true)
    (hdead : w.settled = true → ¬ s.unit.Alive) : Inv { s with watcher := w } := by
  have hphase : s.phase.unwatched = false := by
    refine Bool.eq_false_iff.2 fun hu => ?_
    rw [h.unwatched hu] at hbusy
    cases hbusy
  refine h.watcher hphase hdead fun he => ?_
  rw [h.exited he] at hbusy
  cases hbusy

theorem watchStep {mv : WatchMove} (h : Inv s) (hk : Completes s (.watch mv))
    (hs : watchStep s mv = some s') : Inv s' := by
  have hdead : ∀ {w : Watcher}, s.watcher = w → w.settled = true → ¬ s.unit.Alive :=
    fun heq hw => h.settled (heq ▸ hw)
  have hbusy : ∀ {w : Watcher}, s.watcher = w → w.busy = true → s.watcher.busy = true :=
    fun heq hw => heq ▸ hw
  unfold Launch.watchStep at hs
  dsimp only at hs
  split at hs
  · split at hs <;> cases hs
    rename_i hrun
    exact h.goSettled (hbusy ‹_› rfl) fun _ ha => hrun ha.isRunning
  · split at hs <;> cases hs
    · exact h
    · rename_i hshow
      refine h.goSettled (hbusy ‹_› rfl) fun _ ha => ?_
      -- the show that succeeded has seen no process
      have hok := hk.resolve_right fun hn => hn ha
      exact UnitState.not_alive_of_report (Classical.not_not.1 fun hn => hshow ⟨hok, hn⟩) ha
  · split at hs <;> cases hs
    · exact h.goSettled (hbusy ‹_› rfl) fun _ => hdead ‹_› rfl
    · exact h
  · cases hs
    exact h.goSettled (hbusy ‹_› rfl) fun _ => hdead ‹_› rfl
  · rename_i expired ok heq
    split at hs <;> cases hs
    refine (h.goSettled (w := .clearing expired) (hbusy heq rfl) fun _ => hdead heq rfl).unit ?_
    split
    · exact False.elim
    · exact id
  · split at hs <;> cases hs
    refine (h.goSettled (w := .finished) (hbusy ‹_› rfl) fun _ => hdead ‹_› rfl).unit ?_
    split
    · exact UnitState.Alive.of_resetFailed
    · exact id
  · cases hs
    exact { h with exited := fun _ => ‹_› }
  · cases hs

theorem step {mv : Move} (h : Inv s) (hk : Completes s mv) (hs : step c s mv = some s') : Inv s' := by
  cases mv with
  | cancel =>
    cases hs
    exact { h with }
  | exit code =>
    cases hs
    exact h.unit UnitState.Alive.of_exits
  | start mv => exact h.startStep hk hs
  | watch mv => exact h.watchStep hk hs

end Inv

theorem Starts.inv (h : Starts c Completes s) : Inv s := by
  refine Reached.invariant (fun s hs => ?_) (fun s mv s' hinv hk hs => hinv.step hk hs) h
  obtain ⟨unit, hdead, rfl⟩ := hs
  exact .start hdead

theorem failed_start_leaves_no_process (h : Starts c Completes s) (err : String)
    (hret : s.phase = .returned (some err)) : ¬ s.unit.Alive :=
  h.inv.returned err hret

instance (s : State) (mv : Move) : Decidable (Completes s mv) :=
  match mv with
  | .start mv => match mv with
    | .systemdRunFails _ started => inferInstanceAs (Decidable (started = none))
    | .confirm err | .kill err => inferInstanceAs (Decidable (err = none ∨ ¬ s.unit.Alive))
    | .validate _ | .prepare _ | .check _ | .unitShow _ | .release _ | .reset _ | .openLog _
    | .systemdRun _ | .pidfdOpen _ | .dial _ | .seesExit .. | .seesCancel _ | .seesTimeout .. | .retry
    | .await => inferInstanceAs (Decidable True)
  | .watch mv => match mv with
    | .poll ok => inferInstanceAs (Decidable (ok = true ∨ ¬ s.unit.Alive))
    | .pidfdReady | .exitStatus _ | .statusTimeout | .stop _ | .reset _ | .forward =>
      inferInstanceAs (Decidable True)
  | .cancel | .exit _ => inferInstanceAs (Decidable True)

namespace Sample

def cmd : Cmd := ⟨"qemu-system-x86_64", "vm-manager-a-qemu.service", "/run/a/qmp.sock"⟩

def launch : List Move :=
  [.start (.validate none), .start (.prepare none), .start (.check none), .start (.unitShow none),
    .start (.openLog none), .start (.systemdRun 7)]

def killed : List Move :=
  launch ++ [.start (.confirm none), .start (.pidfdOpen .failed), .start (.dial (some "refused")),
    .watch (.poll true), .cancel, .start (.seesCancel "context canceled"), .start (.kill none), .exit 2,
    .watch (.poll false), .watch .statusTimeout, .watch (.stop false), .watch (.reset false),
    .watch .forward, .start .await]

def abandoned : List Move := launch ++ [.cancel, .start (.confirm (some "signal: killed"))]

end Sample
open Sample

theorem failed_start_leaves_no_process_killed : ∃ s, Starts cmd Completes s ∧
    s.phase = .returned (some "qemu start: context canceled") ∧ ¬ s.unit.Alive := by
  have hrun : ((execAll (step cmd) (fun s mv => decide (Completes s mv)) { unit := .notFound }
      Sample.killed).map fun s => s.phase) =
        some (.returned (some "qemu start: context canceled")) := by
    decide +kernel
  obtain ⟨s, hs, hret⟩ := Option.map_eq_some_iff.1 hrun
  have hstarts : Starts cmd Completes s :=
    Reached.execAll (fun _ _ hok => of_decide_eq_true hok) (.start ⟨.notFound, id, rfl⟩) hs
  exact ⟨s, hstarts, hret, failed_start_leaves_no_process hstarts _ hret⟩

theorem failed_start_leaves_process : ∃ s, Starts cmd (fun _ _ => True) s ∧ s.phase = .returned (some
      "qemu: start qemu-system-x86_64 as vm-manager-a-qemu.service: signal: killed") ∧ s.unit.Alive := by
  have hrun : ((execAll (step cmd) (fun _ _ => true) { unit := .notFound } abandoned).map fun s => (s.phase, s.unit)) =
        some (.returned (some
          "qemu: start qemu-system-x86_64 as vm-manager-a-qemu.service: signal: killed"),
          .running 7 true) := by
    decide +kernel
  obtain ⟨s, hs, heq⟩ := Option.map_eq_some_iff.1 hrun
  obtain ⟨hret, hunit⟩ := Prod.mk.inj heq
  refine ⟨s, Reached.execAll (fun _ _ _ => trivial) (.start ⟨.notFound, id, rfl⟩) hs, hret, ?_⟩
  rw [hunit]
  rfl

end VmManager.Runtime.Launch
