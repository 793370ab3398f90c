import VmManager.Interleaving.Stepper

/-! The supervision of a unit that was started or attached: one goroutine that learns of the end of the main
process, reads its status from systemd, releases the unit and completes Wait. A step is one command, one system
call, or what systemd and the process do meanwhile. What systemd has reported is kept for the property. -/
namespace VmManager.Runtime.Supervise
open Interleaving

structure UnitState where
  loadState : String
  mainPID : Nat
  execMainCode : Nat
  execMainStatus : Nat
deriving DecidableEq, Repr

structure ExitStatus where
  code : Int := 0
  err : Option String := none
deriving DecidableEq, Repr

inductive Cause where
  | exited
  | killed
  | dumped
deriving DecidableEq, Repr

def Cause.code : Cause → Nat
  | .exited => 1
  | .killed => 2
  | .dumped => 3

namespace UnitState

def loaded (st : UnitState) : Bool := st.loadState ≠ "" && st.loadState ≠ "not-found"

def tells (st : UnitState) : Bool := st.mainPID = 0 && st.execMainCode ≠ 0

def exit (signal : Nat → String) (st : UnitState) : ExitStatus :=
  if st.execMainCode = Cause.exited.code then
    if st.execMainStatus = 0 then {}
    else ⟨st.execMainStatus, some ("exit status " ++ toString st.execMainStatus)⟩
  else if st.execMainCode = Cause.killed.code ∨ st.execMainCode = Cause.dumped.code then
    ⟨-1, some ("signal: " ++ signal st.execMainStatus ++
      if st.execMainCode = Cause.dumped.code then " (core dumped)" else "")⟩
  else ⟨-1, some ("exit status unknown: ExecMainCode " ++ toString st.execMainCode)⟩

end UnitState

/-- The unit and its main process. One that has ended is reported as running until systemd has reaped it. -/
inductive World where
  | running (pid : Nat) (pos : 0 < pid)
  | unreaped (pid : Nat) (pos : 0 < pid) (cause : Cause) (status : Nat)
  | ended (cause : Cause) (status : Nat)
  | gone
deriving DecidableEq

namespace World

def report : World → UnitState
  | .running pid _ | .unreaped pid _ _ _ => ⟨"loaded", pid, 0, 0⟩
  | .ended cause status => ⟨"loaded", 0, cause.code, status⟩
  | .gone => ⟨"not-found", 0, 0, 0⟩

def alive : World → Bool
  | .running .. => true
  | _ => false

def hasProcess : World → Bool
  | .running .. | .unreaped .. => true
  | _ => false

end World

inductive Phase where
  | opening (st : UnitState)
  /-- `own` if the descriptor is of the main process and not of another one with its pid. -/
  | watching (own : Bool)
  | polling
  | asking
  | pausing (st : UnitState)
  | stopping (status : ExitStatus)
  | resetting (status : ExitStatus)
  | done (status : ExitStatus)
deriving DecidableEq

structure State where
  world : World
  phase : Phase
  /-- The context of settle has ended. -/
  expired : Bool := false
  /-- What systemd has reported of the end of the process. -/
  reported : Option UnitState := none
deriving DecidableEq

inductive PidfdOpen where
  | opened
  | esrch
  | failed
deriving DecidableEq

inductive Move where
  | exit (cause : Cause) (status : Nat)
  | reap
  /-- Someone else releases the unit. -/
  | unload
  | expire
  | pidfdOpen (r : PidfdOpen)
  | settle
  | pidfdReady
  | pollShow (err : Option String)
  | statusShow (err : Option String)
  | pause
  | timeout
  | stop (ok : Bool)
  | reset (ok : Bool)

def State.seen (s : State) : Option UnitState :=
  if s.world.report.tells then some s.world.report else s.reported

def State.goto (s : State) (phase : Phase) : State := { s with phase }

def worldStep (s : State) : Move → Option State
  | .exit cause status => match s.world with
    | .running pid pos => some { s with world := .unreaped pid pos cause status }
    | _ => none
  | .reap => match s.world with
    | .unreaped _ _ cause status => some { s with world := .ended cause status }
    | _ => none
  | .unload => match s.world with
    | .ended .. => some { s with world := .gone }
    | _ => none
  | .expire => some { s with expired := true }
  | _ => none

section supervise
variable (signal : Nat → String) (unit : String)

def unknown (why : String) : ExitStatus := ⟨-1, some ("exit status unknown: " ++ why)⟩

def superviseStep (s : State) (mv : Move) : Option State :=
  match s.phase, mv with
  | .opening st, .pidfdOpen r =>
    if st.mainPID = 0 then none
    else match r with
    | .opened => some (s.goto (.watching s.world.hasProcess))
    | .failed => some (s.goto .polling)
    | .esrch => if s.world.hasProcess then none else some (s.goto .asking)
  | .opening st, .settle => if st.mainPID = 0 then some (s.goto .asking) else none
  | .watching own, .pidfdReady => if own && s.world.alive then none else some (s.goto .asking)
  | .polling, .pollShow err =>
    match err with
    | some _ => some (s.goto .asking)
    | none =>
      let st := s.world.report
      if !st.loaded || st.mainPID = 0 then some { s with phase := .asking, reported := s.seen } else some s
  | .asking, .statusShow err =>
    match err with
    | some err => some (s.goto (.stopping (unknown err)))
    | none =>
      let st := s.world.report
      if s.expired then none
      else if !st.loaded then some (s.goto (.stopping (unknown ("unit " ++ unit ++ " is gone"))))
      else if st.tells then some { s with phase := .stopping (st.exit signal), reported := s.seen }
      else some (s.goto (.pausing st))
  | .pausing _, .pause => some (s.goto .asking)
  | .pausing st, .timeout =>
    if s.expired then
      some (s.goto (.stopping (unknown ("unit " ++ unit ++ " still reports pid " ++ toString st.mainPID))))
    else none
  -- A command is not run once the context has ended.
  | .stopping status, .stop ok =>
    if ok && s.expired then none
    else some { s with world := if ok then .gone else s.world, phase := .resetting status }
  | .resetting status, .reset ok =>
    if ok && s.expired then none
    else some { s with world := if ok && !s.world.hasProcess then .gone else s.world, phase := .done status }
  | _, _ => none

def step (s : State) (mv : Move) : Option State :=
  match worldStep s mv with
  | some s' => some s'
  | none => superviseStep signal unit s mv

def Begins (s : State) : Prop :=
  ∃ w : World, s = { world := w, phase := .opening w.report, reported := if w.report.tells then some w.report else none }

end supervise

def Phase.settled : Phase → Bool
  | .asking | .pausing _ | .stopping _ | .resetting _ | .done _ => true
  | _ => false

def Phase.status : Phase → Option ExitStatus
  | .stopping status | .resetting status | .done status => some status
  | _ => none

/-- No show of the poller fails while the process runs, and once systemd has reported how it ended, the show for
the status does not fail and nobody else releases the unit before the status is read. -/
def Reliable (s : State) : Move → Prop
  | .pollShow err => err = none ∨ s.world.alive = false
  | .statusShow err => err = none ∨ s.reported = none
  | .unload => s.reported = none ∨ s.phase.status.isSome = true
  | _ => True

structure Inv (signal : Nat → String) (s : State) : Prop where
  settled : s.phase.settled = true → s.world.alive = false
  opening : ∀ st, s.phase = .opening st → st.mainPID = 0 → s.world.alive = false
  watching : s.phase = .watching false → s.world.alive = false
  reported : ∀ st, s.reported = some st → s.phase.status = none →
    ∃ cause status, s.world = .ended cause status ∧ st = s.world.report
  pausing : ∀ st, s.phase = .pausing st → s.reported = none
  status : ∀ status st, s.phase.status = some status → s.reported = some st → status = st.exit signal

section proofs
variable {signal : Nat → String} {unit : String} {s s' : State} {mv : Move} {w : World} {phase : Phase}

theorem not_alive_of_mainPID (h : w.report.mainPID = 0) : w.alive = false := by
  cases w with
  | running pid pos => exact absurd h (Nat.pos_iff_ne_zero.1 pos)
  | unreaped pid pos cause status => rfl
  | ended cause status => rfl
  | gone => rfl

theorem not_alive_of_hasProcess (h : w.hasProcess = false) : w.alive = false := by
  cases w with
  | running pid pos => cases h
  | unreaped pid pos cause status => rfl
  | ended cause status => rfl
  | gone => rfl

theorem ended_of_tells (h : w.report.tells = true) : ∃ cause status, w = .ended cause status := by
  cases w with
  | running pid pos => simp [World.report, UnitState.tells] at h
  | unreaped pid pos cause status => simp [World.report, UnitState.tells] at h
  | ended cause status => exact ⟨cause, status, rfl⟩
  | gone => simp [World.report, UnitState.tells] at h

theorem ended_report (cause : Cause) (status : Nat) : (World.ended cause status).report.tells = true ∧
    (World.ended cause status).report.loaded = true := by
  cases cause <;> exact ⟨rfl, rfl⟩

theorem not_alive_of_not_loaded (h : w.report.loaded = false) : w.alive = false := by
  cases w with
  | running pid pos => simp [World.report, UnitState.loaded] at h
  | unreaped pid pos cause status => rfl
  | ended cause status => rfl
  | gone => rfl

theorem worldStep_cases (h : worldStep s mv = some s') : s'.phase = s.phase ∧ s'.reported = s.reported ∧
    (s.world.alive = false → s'.world.alive = false) ∧
    (∀ cause status, s.world = .ended cause status → s'.world = s.world ∨ mv = .unload) := by
  cases mv with
  | exit cause status =>
    rw [worldStep] at h
    split at h <;> cases h
    rename_i hw
    exact ⟨rfl, rfl, fun _ => rfl, fun _ _ he => by rw [hw] at he; cases he⟩
  | reap =>
    rw [worldStep] at h
    split at h <;> cases h
    rename_i hw
    exact ⟨rfl, rfl, fun _ => rfl, fun _ _ he => by rw [hw] at he; cases he⟩
  | unload =>
    rw [worldStep] at h
    split at h <;> cases h
    exact ⟨rfl, rfl, fun _ => rfl, fun _ _ _ => .inr rfl⟩
  | expire =>
    cases h
    exact ⟨rfl, rfl, id, fun _ _ _ => .inl rfl⟩
  | _ => cases h

namespace Inv

theorem begins (h : Begins s) : Inv signal s := by
  obtain ⟨w, rfl⟩ := h
  refine ⟨nofun, fun st hst h0 => ?_, nofun, fun st hst _ => ?_, nofun, nofun⟩
  · cases hst
    exact not_alive_of_mainPID h0
  · split at hst <;> cases hst
    rename_i ht
    obtain ⟨cause, status, rfl⟩ := ended_of_tells ht
    exact ⟨cause, status, rfl, rfl⟩

theorem world (h : Inv signal s) (hk : Reliable s mv) (hstep : worldStep s mv = some s') : Inv signal s' := by
  obtain ⟨hphase, hreported, halive, hended⟩ := worldStep_cases hstep
  refine ⟨fun hs => ?_, fun st hst h0 => ?_, fun hw => ?_, fun st hst hnone => ?_, fun st hst => ?_,
    fun status st hst hr => ?_⟩
  · exact halive (h.settled (hphase ▸ hs))
  · exact halive (h.opening st (hphase ▸ hst) h0)
  · exact halive (h.watching (hphase ▸ hw))
  · rw [hreported] at hst
    rw [hphase] at hnone
    obtain ⟨cause, status, hw, hrep⟩ := h.reported st hst hnone
    rcases hended cause status hw with hsame | rfl
    · rw [hsame]
      exact ⟨cause, status, hw, hrep⟩
    · rcases hk with hk | hk
      · rw [hk] at hst
        cases hst
      · rw [hnone] at hk
        cases hk
  · rw [hreported]
    exact h.pausing st (hphase ▸ hst)
  · exact h.status status st (hphase ▸ hst) (hreported ▸ hr)

theorem goto (h : Inv signal s) (hsettled : phase.settled = true → s.world.alive = false)
    (hopening : ∀ st, phase ≠ .opening st) (hwatching : phase = .watching false → s.world.alive = false)
    (hstatus : s.phase.status = none) (hpausing : ∀ st, phase = .pausing st → s.reported = none)
    (hnew : ∀ status, phase.status = some status → s.reported = none) : Inv signal (s.goto phase) where
  settled := hsettled
  opening st hst := absurd hst (hopening st)
  watching := hwatching
  reported st hst _ := h.reported st hst hstatus
  pausing := hpausing
  status status st hst hr := by
    rw [State.goto, hnew status hst] at hr
    cases hr

theorem see (h : Inv signal s) (hstatus : s.phase.status = none) (hdead : s.world.alive = false) :
    Inv signal { s with phase := .asking, reported := s.seen } where
  settled _ := hdead
  opening := nofun
  watching := nofun
  reported st hst _ := by
    simp only [State.seen] at hst
    split at hst
    · rename_i ht
      cases hst
      obtain ⟨cause, status, hw⟩ := ended_of_tells ht
      exact ⟨cause, status, hw, rfl⟩
    · exact h.reported st hst hstatus
  pausing := nofun
  status := nofun

theorem unreported (h : Inv signal s) (hstatus : s.phase.status = none)
    (hw : s.world.report.tells = false ∨ s.world.report.loaded = false) : s.reported = none := by
  cases hr : s.reported with
  | none => rfl
  | some st =>
    obtain ⟨cause, status, hend, -⟩ := h.reported st hr hstatus
    obtain ⟨htells, hloaded⟩ := ended_report cause status
    rw [hend, htells, hloaded] at hw
    simp at hw

theorem poll (h : Inv signal s) {err : Option String} (hk : Reliable s (.pollShow err)) (hphase : s.phase = .polling)
    (hstep : superviseStep signal unit s (.pollShow err) = some s') : Inv signal s' := by
  have hnone : s.phase.status = none := by rw [hphase]; rfl
  simp only [superviseStep, hphase] at hstep
  cases err with
  | some err =>
    cases hstep
    exact h.goto (fun _ => hk.resolve_left nofun) nofun nofun hnone nofun nofun
  | none =>
    dsimp only at hstep
    split at hstep
    · rename_i hend
      cases hstep
      refine h.see hnone ?_
      rcases Bool.or_eq_true_iff.1 hend with hl | hp
      · exact not_alive_of_not_loaded (by simpa using hl)
      · exact not_alive_of_mainPID (of_decide_eq_true hp)
    · cases hstep
      exact h

theorem ask (h : Inv signal s) {err : Option String} (hk : Reliable s (.statusShow err)) (hphase : s.phase = .asking)
    (hstep : superviseStep signal unit s (.statusShow err) = some s') : Inv signal s' := by
  have hnone : s.phase.status = none := by rw [hphase]; rfl
  have hdead : s.world.alive = false := h.settled (by rw [hphase]; rfl)
  simp only [superviseStep, hphase] at hstep
  cases err with
  | some err =>
    cases hstep
    exact h.goto (fun _ => hdead) nofun nofun hnone nofun fun _ _ => hk.resolve_left nofun
  | none =>
    dsimp only at hstep
    split at hstep
    · cases hstep
    split at hstep
    · rename_i hl
      cases hstep
      exact h.goto (fun _ => hdead) nofun nofun hnone nofun fun _ _ => h.unreported hnone (.inr (by simpa using hl))
    · split at hstep
      · rename_i ht
        cases hstep
        refine ⟨fun _ => hdead, nofun, nofun, nofun, nofun, fun status st hst hr => ?_⟩
        simp only [State.seen, ht, if_true] at hr
        cases hst
        cases hr
        rfl
      · rename_i ht
        cases hstep
        exact h.goto (fun _ => hdead) nofun nofun hnone
          (fun _ _ => h.unreported hnone (.inl (by simpa using ht))) nofun

theorem release (h : Inv signal s) {status : ExitStatus} (hphase : s.phase.status = some status)
    (hsettled : s.phase.settled = true) (hnext : phase.status = some status) (hw : w.alive = false ∨ w = s.world)
    (hpausing : ∀ st, phase ≠ .pausing st) (hopening : ∀ st, phase ≠ .opening st)
    (hwatching : phase ≠ .watching false) : Inv signal { s with world := w, phase := phase } where
  settled _ := hw.elim id fun heq => heq ▸ h.settled hsettled
  opening st hst := absurd hst (hopening st)
  watching hst := absurd hst hwatching
  reported st _ hst := by
    rw [hnext] at hst
    cases hst
  pausing st hst := absurd hst (hpausing st)
  status status' st hst hr := by
    rw [hnext] at hst
    cases hst
    exact h.status status st hphase hr

theorem supervise (h : Inv signal s) (hk : Reliable s mv) (hstep : superviseStep signal unit s mv = some s') :
    Inv signal s' := by
  have hstep₀ := hstep
  unfold superviseStep at hstep
  split at hstep
  · rename_i st r hphase
    have hnone : s.phase.status = none := by rw [hphase]; rfl
    split at hstep
    · cases hstep
    split at hstep
    · cases hstep
      refine h.goto nofun nofun (fun hw => ?_) hnone nofun nofun
      exact not_alive_of_hasProcess (Phase.watching.inj hw)
    · cases hstep
      exact h.goto nofun nofun nofun hnone nofun nofun
    · split at hstep <;> cases hstep
      rename_i hp
      exact h.goto (fun _ => not_alive_of_hasProcess (by simpa using hp)) nofun nofun hnone nofun nofun
  · rename_i st hphase
    have hnone : s.phase.status = none := by rw [hphase]; rfl
    split at hstep <;> cases hstep
    rename_i h0
    exact h.goto (fun _ => h.opening st hphase h0) nofun nofun hnone nofun nofun
  · rename_i own hphase
    have hnone : s.phase.status = none := by rw [hphase]; rfl
    split at hstep <;> cases hstep
    rename_i hready
    refine h.goto (fun _ => ?_) nofun nofun hnone nofun nofun
    cases own with
    | true => simpa using hready
    | false => exact h.watching hphase
  · rename_i hphase
    exact h.poll hk hphase hstep₀
  · rename_i hphase
    exact h.ask hk hphase hstep₀
  · rename_i st hphase
    have hdead : s.world.alive = false := h.settled (by rw [hphase]; rfl)
    cases hstep
    exact h.goto (fun _ => hdead) nofun nofun (by rw [hphase]; rfl) nofun nofun
  · rename_i st hphase
    have hdead : s.world.alive = false := h.settled (by rw [hphase]; rfl)
    split at hstep <;> cases hstep
    exact h.goto (fun _ => hdead) nofun nofun (by rw [hphase]; rfl) nofun fun _ _ => h.pausing st hphase
  · rename_i status ok hphase
    split at hstep <;> cases hstep
    refine h.release (by rw [hphase]; rfl) (by rw [hphase]; rfl) rfl ?_ nofun nofun nofun
    cases ok with
    | true => exact .inl rfl
    | false => exact .inr rfl
  · rename_i status ok hphase
    split at hstep <;> cases hstep
    refine h.release (by rw [hphase]; rfl) (by rw [hphase]; rfl) rfl ?_ nofun nofun nofun
    split
    · exact .inl rfl
    · exact .inr rfl
  · cases hstep

theorem reached (h : Reached (step signal unit) Begins Reliable s) : Inv signal s := by
  refine h.invariant (fun _ => begins) fun s mv s' hi hk hstep => ?_
  unfold step at hstep
  split at hstep
  · rename_i hw
    cases hstep
    exact hi.world hk hw
  · exact hi.supervise hk hstep

end Inv

end proofs

theorem release_after_end (signal : Nat → String) (unit : String) {s : State}
    (h : Reached (step signal unit) Begins Reliable s) : (s.phase.status.isSome = true → s.world.alive = false) ∧
    ∀ status st, s.phase = .done status → s.reported = some st → status = st.exit signal := by
  have hinv := Inv.reached h
  refine ⟨fun hstatus => hinv.settled ?_, fun status st hdone hst => ?_⟩
  · cases hphase : s.phase with
    | opening st => rw [hphase] at hstatus; cases hstatus
    | watching own => rw [hphase] at hstatus; cases hstatus
    | polling => rw [hphase] at hstatus; cases hstatus
    | _ => rfl
  · exact hinv.status status st (by rw [hdone]; rfl) hst

instance (s : State) (mv : Move) : Decidable (Reliable s mv) :=
  match mv with
  | .pollShow err => inferInstanceAs (Decidable (err = none ∨ s.world.alive = false))
  | .statusShow err => inferInstanceAs (Decidable (err = none ∨ s.reported = none))
  | .unload => inferInstanceAs (Decidable (s.reported = none ∨ s.phase.status.isSome = true))
  | .exit _ _ | .reap | .expire | .pidfdOpen _ | .settle | .pidfdReady | .pause | .timeout | .stop _ | .reset _ =>
    inferInstanceAs (Decidable True)

namespace Sample

def signal (n : Nat) : String := "signal " ++ toString n

def running : World := .running 7 (by decide)

def start : State := { world := running, phase := .opening running.report }

def moves : List Move :=
  [.pidfdOpen .failed, .pollShow none, .exit .exited 3, .pollShow none, .reap, .pollShow none, .statusShow none,
    .stop true, .reset true]

def timeouts : List Move := [.pidfdOpen .failed, .pollShow (some "timeout"), .statusShow (some "timeout")]

def lost : List Move :=
  [.pidfdOpen .failed, .exit .exited 3, .reap, .pollShow none, .statusShow (some "timeout"), .stop true, .reset true]

def run (moves : List Move) (ok : State → Move → Bool) : Option State :=
  execAll (step signal "qemu.service") ok start moves

end Sample
open Sample

theorem release_after_end_polled : ∃ s, Reached (step signal "qemu.service") Begins Reliable s ∧
    s.phase = .done ⟨3, some "exit status 3"⟩ ∧ s.world.alive = false := by
  have hrun : run moves (fun s mv => Reliable s mv) = some
      { world := .gone, phase := .done ⟨3, some "exit status 3"⟩, reported := some ⟨"loaded", 0, 1, 3⟩ } := by
    decide +kernel
  have hstart : Reached (step signal "qemu.service") Begins Reliable start :=
    .start ⟨running, rfl⟩
  have hs := hstart.execAll (fun _ _ => of_decide_eq_true) hrun
  exact ⟨_, hs, rfl, (release_after_end signal "qemu.service" hs).1 rfl⟩

theorem release_of_running_unit :
    (run timeouts (fun _ _ => true)).any (fun s =>
      s.phase = .stopping ⟨-1, some "exit status unknown: timeout"⟩ && s.world.alive) = true ∧
    (run lost (fun _ _ => true)).any (fun s =>
      s.reported = some ⟨"loaded", 0, 1, 3⟩ && s.phase = .done ⟨-1, some "exit status unknown: timeout"⟩) = true := by
  decide +kernel

end VmManager.Runtime.Supervise
