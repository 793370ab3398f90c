import VmManager.Vm.Types

/-! What the critical sections of the service do to a VM record. Each constructor of `Update` is one
critical section of the source; `update` is its effect, and the lemmas say once what updates leave
alone. -/
namespace VmManager.Vm
open Encoding Attest

/-- A message of a guest, routed by the CID it came from. `sender` is the QEMU whose guest sent it; the
source does not keep it. -/
structure Notification where
  cid : Nat := 0
  port : Nat := 0
  sender : Nat := 0
  status : String := ""
  ready : Bool := false
deriving DecidableEq, Repr

structure ExitStatus where
  code : Int
  text : String := ""
deriving DecidableEq, Repr

structure Console where
  stall : String := ""
  tail : String := ""
deriving DecidableEq, Repr

def withVTPMFailure (c : Console) (msg : String) : String :=
  if c.stall = "" then msg
  else "vtpm not responding: the guest's TPM calls failed (console: " ++ c.stall ++ "); " ++ msg

def failureMessage (c : Console) (what : String) (exit : ExitStatus) (timedOut : Bool)
    (timeout : String) : String :=
  let msg := if timedOut then what ++ " did not finish within " ++ timeout
    else what ++ " exited: " ++ (if exit.code = 0 then "exit status 0" else exit.text)
  let msg := withVTPMFailure c msg
  if c.tail = "" then msg else msg ++ "\nconsole:\n" ++ c.tail

def attestationError (c : Console) (a : Attestation) : String :=
  let rejected (stage : Stage) : Option Quote → Option String
    | some q => if q.verified then none
      else some (withVTPMFailure c (stage.name ++ " attestation rejected: " ++ q.message))
    | none => none
  match rejected .initrd a.initrd with
  | some msg => msg
  | none => (rejected .ready a.ready).getD ""

inductive Update where
  | volume (sshPublicKey : String)
  | leased (ip : Network.Addr) (mac : List Nat)
  | reassigned (cid : Nat)
  | installing (h : Processes)
  | booting (h : Processes)
  | failed (msg : String)
  | handoffClosed
  | stopping
  | overdue (timeout : String) (c : Console)
  | notified (n : Notification) (c : Console)
  | exited (phase : Phase) (timedOut : Bool) (exit : ExitStatus) (timeout : String) (c : Console)
  | deleting
  | nonceIssued
  | quoteRecorded (stage : Stage) (q : Quote) (c : Console)
  | reattachFailed (err : String)
  | resaved
deriving DecidableEq

namespace VM

/-- The installer finished and its VM is still installing: the case of `onExit` that hands over to the
installed boot. -/
def installerDone (r : VM) (phase : Phase) (timedOut : Bool) (exit : ExitStatus) : Bool :=
  r.state != .deleting && r.state != .stopping && phase == .install && r.state == .installing &&
    exit.code == 0 && !timedOut

def onExit (r : VM) (now : Nat) (phase : Phase) (timedOut : Bool) (exit : ExitStatus)
    (timeout : String) (c : Console) : VM :=
  let r := { r with processes := none }
  if r.state = .deleting then r
  else if r.state = .stopping then { r with state := .stopped }
  else if phase = .install ∧ r.state = .installing ∧ exit.code = 0 ∧ timedOut = false then
    { r with installedAt := some now }
  else if phase = .install ∧ r.state = .installing then
    { r with state := .failed, lastError := failureMessage c "installer" exit timedOut timeout }
  else if exit.code = 0 then { r with state := .stopped, lastError := "guest shut down" }
  else { r with state := .failed, lastError := failureMessage c "qemu" exit false "0s" }

def onNotify (r : VM) (now : Nat) (n : Notification) (c : Console) : VM :=
  let r := if n.status = "" then r else { r with status := n.status }
  if n.ready ∧ (r.state = .booting ∨ r.state = .attesting ∨ r.state = .running) then
    { r with state := .ready, readyAt := some now, booted := true, lastError := attestationError c r.attestation }
  else r

def onNonce (r : VM) (now : Nat) : VM :=
  let r := { r with attestation.nonceIssuedAt := r.attestation.nonceIssuedAt <|> some now }
  if r.attestation.required ∧ r.state = .booting then { r with state := .attesting } else r

def recordQuote (r : VM) (stage : Stage) (q : Quote) (c : Console) : VM :=
  let prev := attestationError c r.attestation
  let a := match stage with
    | .initrd => { r.attestation with initrd := some q }
    | .ready => { r.attestation with ready := some q }
    | .unknown _ => r.attestation
  let lastError := if !q.verified || r.lastError == prev then attestationError c a else r.lastError
  { r with
    attestation := { a with
      userDataReleased := a.userDataReleased || releasesUserData stage q.verified }
    lastError := lastError }

def update (r : VM) (now : Nat) : Update → VM
  | .volume pub => { r with sshPublicKey := pub }
  | .leased ip mac => { r with ip := some ip, mac := mac }
  | .reassigned cid => { r with cid := cid }
  | .installing h => { r with processes := some h, state := .installing, phase := .install }
  | .booting h =>
    { r with
      processes := some h, state := .booting, phase := .boot, bootedAt := some now, readyAt := none
      status := "", lastError := ""
      attestation := { required := r.spec.requireAttestation
                       userDataReleased := !r.spec.requireAttestation } }
  | .failed msg => { r with state := .failed, lastError := msg }
  | .handoffClosed =>
    { r with state := .stopped, lastError :=
        "vm-manager shut down before the installed boot started; start the VM" }
  | .stopping => { r with state := .stopping }
  | .overdue timeout c =>
    let msg := "no READY=1 within " ++ timeout ++ "; the guest is up but has not reported ready"
    { r with state := .running, lastError := withVTPMFailure c msg }
  | .notified n c => r.onNotify now n c
  | .exited phase timedOut exit timeout c => r.onExit now phase timedOut exit timeout c
  | .deleting => { r with state := .deleting }
  | .nonceIssued => r.onNonce now
  | .quoteRecorded stage q c => r.recordQuote stage q c
  | .reattachFailed err =>
    { r with
      state := .stopped, processes := none
      lastError := "vm-manager restarted while the VM was " ++ r.state.name ++
        " and could not reattach to its QEMU (" ++ err ++ "); start the VM again" }
  | .resaved => r

end VM

def Update.started : Phase → Processes → Update
  | .install, h => .installing h
  | .boot, h => .booting h

def Update.saves : Update → Bool
  | .volume _ | .reattachFailed _ => false
  | _ => true

def Update.opensVolume : Update → Bool
  | .volume _ => true
  | _ => false

def Update.endsSubmit : Update → Bool
  | .quoteRecorded .. => true
  | _ => false

def Update.endsLoading : Update → Bool
  | .reattachFailed _ => true
  | _ => false

def Update.mayRun : Update → Bool
  | .installing _ | .booting _ | .failed _ | .handoffClosed | .exited .. | .reattachFailed _ => false
  | _ => true

def Update.passing : Update → Bool
  | .notified .. | .nonceIssued | .exited .. => true
  | _ => false

def Update.deletes : Update → Bool
  | .deleting => true
  | _ => false

def VM.loaded (r : VM) : VM :=
  if r.state = .creating ∨ r.state = .deleting then
    { r with state := .failed, lastError :=
        "vm-manager restarted while the VM was " ++ r.state.name ++ "; delete it" }
  else r

namespace VM
variable (r : VM) (now : Nat) (phase : Phase) (timedOut : Bool) (exit : ExitStatus) (timeout : String) (c : Console)

theorem onNonce_state :
    (r.onNonce now).state = r.state ∨ (r.state = .booting ∧ (r.onNonce now).state = .attesting) := by
  unfold onNonce
  dsimp only
  split <;> simp_all

theorem onNotify_state (n : Notification) (c : Console) :
    (r.onNotify now n c).state = r.state ∨ ((r.state = .booting ∨ r.state = .attesting ∨
      r.state = .running) ∧ (r.onNotify now n c).state = .ready) := by
  unfold onNotify
  dsimp only
  split <;> split <;> simp_all

/-- What a message, a nonce and an exit leave as it was. -/
structure Frame (r r' : VM) : Prop where
  id : r'.id = r.id
  serial : r'.serial = r.serial
  spec : r'.spec = r.spec
  ip : r'.ip = r.ip
  mac : r'.mac = r.mac
  cid : r'.cid = r.cid
  initrd : r'.attestation.initrd = r.attestation.initrd
  ready : r'.attestation.ready = r.attestation.ready
  released : r'.attestation.userDataReleased = r.attestation.userDataReleased
  booted : r.booted = true → r'.booted = true

structure SameRun (r r' : VM) : Prop extends Frame r r' where
  installedAt : r'.installedAt = r.installedAt
  processes : r'.processes = r.processes
  phase : r'.phase = r.phase

theorem onNonce_same : SameRun r (r.onNonce now) := by
  unfold onNonce
  dsimp only
  split <;> exact ⟨⟨rfl, rfl, rfl, rfl, rfl, rfl, rfl, rfl, rfl, fun h => h⟩, rfl, rfl, rfl⟩

theorem onNotify_same (n : Notification) (c : Console) : SameRun r (r.onNotify now n c) := by
  unfold onNotify
  dsimp only
  split <;> split <;>
    exact ⟨⟨rfl, rfl, rfl, rfl, rfl, rfl, rfl, rfl, rfl, fun h => by first | rfl | exact h⟩, rfl, rfl, rfl⟩

theorem passing_frame {u : Update} (hu : u.passing = true) : Frame r (r.update now u) := by
  cases u with
  | notified n c => exact (onNotify_same r now n c).toFrame
  | nonceIssued => exact (onNonce_same r now).toFrame
  | exited =>
    unfold update onExit
    dsimp only
    repeat' split
    all_goals exact ⟨rfl, rfl, rfl, rfl, rfl, rfl, rfl, rfl, rfl, fun h => h⟩
  | _ => cases hu

theorem update_frame (u : Update) : let r' := r.update now u
    r'.id = r.id ∧ r'.serial = r.serial ∧ r'.spec = r.spec := by
  have hf := r.passing_frame now (u := u)
  cases u with
  | notified | nonceIssued | exited => exact ⟨(hf rfl).id, (hf rfl).serial, (hf rfl).spec⟩
  | _ => exact ⟨rfl, rfl, rfl⟩

@[simp] theorem update_id (u : Update) : (r.update now u).id = r.id := (update_frame r now u).1

@[simp] theorem update_serial (u : Update) : (r.update now u).serial = r.serial := (update_frame r now u).2.1

@[simp] theorem update_spec (u : Update) : (r.update now u).spec = r.spec := (update_frame r now u).2.2

theorem installerDone_iff :
    r.installerDone phase timedOut exit = true ↔
      phase = .install ∧ r.state = .installing ∧ exit.code = 0 ∧ timedOut = false := by
  unfold installerDone
  by_cases h : r.state = .installing <;> simp [h, and_assoc]

theorem onExit_installedAt : (r.onExit now phase timedOut exit timeout c).installedAt =
      if r.installerDone phase timedOut exit then some now else r.installedAt := by
  simp only [installerDone_iff]
  unfold onExit
  dsimp only
  by_cases hd : phase = .install ∧ r.state = .installing ∧ exit.code = 0 ∧ timedOut = false
  · simp [hd]
  · repeat' split
    all_goals rfl

/-- A VM that is deleted stays so, an installer that is done waits for the installed boot, and any other VM is down. -/
theorem onExit_cases : let r' := r.onExit now phase timedOut exit timeout c
    (r.state = .deleting ∧ r' = { r with processes := none }) ∨
    (r.state = .installing ∧ r' = { r with processes := none, installedAt := some now }) ∨
    (r.state ≠ .deleting ∧ (r'.state = .stopped ∨ r'.state = .failed)) := by
  unfold onExit
  dsimp only
  split
  · exact .inl ⟨‹_›, rfl⟩
  split
  · exact .inr (.inr ⟨‹_›, .inl rfl⟩)
  split
  · rename_i hdone
    exact .inr (.inl ⟨hdone.2.1, rfl⟩)
  refine .inr (.inr ⟨‹_›, ?_⟩)
  split
  · exact .inr rfl
  split
  · exact .inl rfl
  · exact .inr rfl

theorem onExit_deleting_iff :
    (r.onExit now phase timedOut exit timeout c).state = .deleting ↔ r.state = .deleting := by
  rcases r.onExit_cases now phase timedOut exit timeout c with ⟨hs, h⟩ | ⟨hs, h⟩ | ⟨hs, h | h⟩ <;> simp [h, hs]

end VM

end VmManager.Vm
