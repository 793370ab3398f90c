import VmManager.Interleaving.Machine
import VmManager.Vm.System

/-! The lifecycle of a VM as the goroutines run it: Create and the installer, the supervisor that
follows a process, the handoff to the installed boot, Start, Stop, Reboot and Delete. Every line is a
critical section, a call to the host or an access to a mutex, in the order of the source. -/
namespace VmManager.Vm
open Encoding Attest Interleaving

structure Config where
  detachOnClose : Bool := false
  region : String := ""
  cidBase : Nat := System.minCID
  installTimeout : String := "5m0s"
  bootTimeout : String := "4m0s"
  /-- The image catalog; no reference asks for the default image. -/
  images : Option String → Except String Image
  tpm2 : Tpmquote.TPM2
  crypto : Tpmquote.Crypto
  attest : Options := {}

/-- What the environment decides in a step: how a call to the host ends, which random text is drawn,
which branch of a select is taken. -/
inductive Answer where
  | ok
  | err (text : String)
  | pick (i : Nat)
  | ids (id machineID : String)
  | text (t : Text)
  | ctxDone
  | exited (c : Console)
  | notify (c : Console)
  | due (c : Console)
  | console (c : Console)

/-- The goroutines: requests, and what the service starts itself. -/
inductive Call where
  | create (spec : Spec)
  | start (id : String)
  | stop (id : String)
  | reboot (id : String)
  | delete (id : String)
  | close
  | createNetwork (spec : Network.Spec)
  | deleteNetwork (name : String)
  | forward (id : String) (port : Int)
  | nonce (n : Nat) (source : Network.Addr)
  | quote (n : Nat) (source : Network.Addr) (req : QuoteRequest)
  | report (n : Nat) (source : Network.Addr) (data : Bytes)
  | deliver (n : Notification)
  | waitFor (e : Nat) (w : WaitFor)
  | run (e p : Nat) (due : Bool)
  | closeStop (e owner : Nat)
  | resumeStop (p : Nat)
  | load
deriving DecidableEq

abbrev Program := Prog System Answer Call Op
abbrev Pool := Interleaving.Pool System Answer Call Op
abbrev Move := Interleaving.Move Answer Call Outside
abbrev Event := Interleaving.Event Call Op Outside
abbrev Go := Proc System Answer Call Op
abbrev GoE := ExceptT String Go

def look {α : Type} (f : System → α) : Go α := Proc.step fun _ _ s => some (.read, f s)

def perform (op : Op) : Go Unit := Proc.step fun _ _ _ => some (op, ())

def lock (e : Nat) : Go Unit := Proc.step fun _ _ s =>
  if (s.entries e).opMu = none then some (.lock e, ()) else none

def unlock (e : Nat) : Go Unit := perform (.unlock e)

def lookupEntry (id : String) : GoE Nat := ExceptT.mk <| look fun s =>
  match s.vms.get id with
  | some e => .ok e
  | none => .error ("not found: vm \"" ++ id ++ "\"")

def record (e : Nat) : Go VM := look fun s => s.record e

def withManager {α : Type} (f : System → α) : Go α := Proc.step fun _ _ s =>
  if s.netMu = none then some (.read, f s) else none

/-- The snapshot of the networks and the write of the file are two steps. -/
def persistNetworks : GoE Unit := ExceptT.mk do
  let states ← withManager fun s => s.nets.states
  Proc.step fun _ _ s => if s.writable then some (.host (.writeNetworks states), .ok ())
    else some (.host .writeFailed, .error "persist networks")

def getNetwork (name : String) : GoE Nat := ExceptT.mk <| withManager fun s =>
  match s.nets.get name with
  | some n => .ok n
  | none => .error ("not found: network \"" ++ name ++ "\"")

def attachNetwork (e n : Nat) (id : String) : GoE Network.Addr := ExceptT.mk <|
  Proc.step fun _ i s => match i, s.nets.net n with
  | .ok, some net => match net.attach id with
    | .ok (ip, _) => some (.net (.attach e n id ip), .ok ip)
    | .error err => some (.read, .error err)
  | .err text, _ => some (.read, .error text)
  | _, _ => none

def createVolume (id : String) : GoE Unit := ExceptT.mk <| Proc.step fun _ i s => match i with
  | .ok => if (s.host.volumes.get id).isSome then none else some (.host (.createVolume id), .ok ())
  | .err text => some (.read, .error text)
  | _ => none

def acquireVolume (id : String) : GoE Unit := ExceptT.mk <| Proc.step fun _ i s => match i with
  | .ok => if (s.host.volumes.get id).isSome then some (.read, .ok ()) else none
  | .err text => some (.read, .error text)
  | _ => none

def startTPM (id : String) : GoE Nat := ExceptT.mk <| Proc.step fun _ i s => match i with
  | .ok => some (.host (.startTPM id s.host.nextTPM), .ok s.host.nextTPM)
  | .err text => some (.read, .error text)
  | _ => none

def stopTPM : Option Nat → Go Unit
  | some tpm => perform (.host (.stopTPM tpm))
  | none => pure ()

def runtimeStart (e : Nat) (phase : Phase) (cid : Nat) : Go (Except String Nat) :=
  Proc.step fun _ i s => match i with
  | .ok => some (.runtimeStart e phase cid (some s.nextQemu), .ok s.nextQemu)
  | .err text => some (.runtimeStart e phase cid none, .error text)
  | _ => none

def containsText (text sub : String) : Bool := text.toList.tails.any fun t => sub.toList.isPrefixOf t

def isCIDInUse (msg : String) : Bool :=
  containsText msg "unable to set guest cid" ||
    (containsText msg "guest-cid" && containsText msg "in use")

def maxCIDRetries : Nat := 16

def reassignCID (e prev : Nat) : Go (Except String Nat) := Proc.step fun _ _ s =>
  let next := s.freeCIDFrom (prev + 1)
  some (.update e (.reassigned next), if s.writable then .ok next else .error "persist vm")

def abandonStart (e : Nat) (phase : Phase) (tpm cid : Nat) : Go Unit := do
  stopTPM (some tpm)
  if phase = .boot then perform (.notify (.unsubscribe (.start e) cid))

def startFailed (e : Nat) (phase : Phase) (tpm cid : Nat) (err : String) : GoE Processes := do
  abandonStart e phase tpm cid
  throw ("start qemu: " ++ err)

def nextCID (e : Nat) (phase : Phase) (tpm cid : Nat) (err : String) : GoE Nat := do
  match ← ExceptT.lift (reassignCID e cid) with
  | .error rerr =>
    abandonStart e phase tpm cid
    throw ("start qemu: " ++ err ++ "; reassign cid: " ++ rerr)
  | .ok next =>
    if phase = .boot then
      perform (.notify (.unsubscribe (.start e) cid))
      perform (.notify (.subscribe e next))
    pure next

def startQemu (e : Nat) (phase : Phase) (tpm : Nat) : Nat → Nat → GoE Processes
  | 0, cid => do
    match ← ExceptT.lift (runtimeStart e phase cid) with
    | .ok q => pure ⟨q, some tpm⟩
    | .error err => startFailed e phase tpm cid err
  | retries + 1, cid => do
    match ← ExceptT.lift (runtimeStart e phase cid) with
    | .ok q => pure ⟨q, some tpm⟩
    | .error err =>
      if isCIDInUse err then
        let next ← nextCID e phase tpm cid err
        startQemu e phase tpm retries next
      else startFailed e phase tpm cid err

def subscribe (e : Nat) (phase : Phase) (cid : Nat) : Go Unit := do
  if phase = .boot then perform (.notify (.subscribe e cid))

def startProcess (e : Nat) (phase : Phase) : GoE Processes := do
  let r ← record e
  let n ← getNetwork r.spec.network
  let _ ← attachNetwork e n r.id
  let tpm ← startTPM r.id
  subscribe e phase r.cid
  startQemu e phase tpm maxCIDRetries r.cid

def track (e : Nat) (phase : Phase) (h : Processes) : Go Nat := Proc.step fun _ _ s =>
  some (.track e phase h, s.nextProc)

def supervise (e p : Nat) : Go Unit := Proc.spawn fun _ n _ _ =>
  some (.supervise p n, (), [.run e p true])

def closeVolume (e : Nat) : Go Unit := perform (.setVolume e false)

def detachNetwork (e : Nat) (name id : String) : Go Unit := do
  match ← withManager fun s => s.nets.get name with
  | some n => perform (.net (.detach e n id))
  | none => pure ()

def deleteVolume (id : String) : Go Unit := Proc.step fun _ i _ => match i with
  | .ok => some (.host (.deleteVolume id true), ())
  | .err _ => some (.host (.deleteVolume id false), ())
  | _ => none

def removeDir (id : String) : Go Unit := Proc.step fun _ i _ => match i with
  | .ok => some (.removeDir id, ())
  | .err _ => some (.host (.removeFailed id), ())
  | _ => none

def takeForwards (e : Nat) : Go (List Nat) := Proc.step fun _ _ s =>
  some (.release e (s.forwards.registered e), s.forwards.registered e)

def closeForwards : List Nat → Go Unit
  | [] => pure ()
  | k :: ks => do
    perform (.forward (.close k))
    closeForwards ks

def teardown (e : Nat) : Go Unit := do
  let r ← record e
  let forwards ← takeForwards e
  closeForwards forwards
  detachNetwork e r.spec.network r.id
  deleteVolume r.id
  removeDir r.id

def discard (e : Nat) : Go Unit := do
  let r ← record e
  teardown e
  perform (.remove r.id)
  let _ ← persistNetworks.run

def writeUserData (e : Nat) : GoE Unit := ExceptT.mk <| Proc.step fun _ i s =>
  if (s.entries e).userData = [] then some (.read, .ok ())
  else match i with
  | .ok => some (.host (.writeUserData (s.record e).id (s.entries e).userData), .ok ())
  | .err text => some (.read, .error text)
  | _ => none

def generateSSHKey (id : String) : GoE String := ExceptT.mk <| Proc.step fun _ i _ => match i with
  | .ids pub _ => some (.host (.writeFile id), .ok pub)
  | .err text => some (.read, .error text)
  | _ => none

def copyVars (id : String) : GoE Unit := ExceptT.mk <| Proc.step fun _ i _ => match i with
  | .ok => some (.host (.writeFile id), .ok ())
  | .err text => some (.read, .error text)
  | _ => none

def provision (e n : Nat) : GoE Unit := do
  let r ← record e
  let pub ← generateSSHKey r.id
  writeUserData e
  copyVars r.id
  createVolume r.id
  perform (.update e (.volume pub))
  let ip ← attachNetwork e n r.id
  perform (.update e (.leased ip (Network.macFor r.spec.network ip)))
  persistNetworks

def provisionAndStart (e n : Nat) : GoE Processes := do
  provision e n
  startProcess e .install

def launch (e n : Nat) : GoE Unit := ExceptT.mk do
  lock e
  match ← (provisionAndStart e n).run with
  | .error err =>
    discard e
    unlock e
    pure (.error err)
  | .ok h =>
    let p ← track e .install h
    supervise e p
    unlock e
    pure (.ok ())

def errShuttingDown : String := "conflict: vm-manager is shutting down"

def allocate (cfg : Config) (spec : Spec) : GoE Nat := ExceptT.mk <| Proc.step fun _ i s =>
  if s.closing then some (.read, .error errShuttingDown)
  else match s.vms.entries.find? fun x => (s.record x.2).spec.name == spec.name with
  | some x => some (.read, .error
      ("conflict: vm name \"" ++ spec.name ++ "\" is in use by " ++ (s.record x.2).id))
  | none => match i with
    | .ids id machineID =>
      -- newID draws again while the id is taken. Its fileExists is false of a directory.
      if (s.vms.get id).isSome then none
      else if s.writable then
        some (.allocate id machineID (s.freeCIDFrom cfg.cidBase) spec, .ok s.nextEntry)
      else some (.undoAllocate id, .error ("persist vm " ++ id))
    | .err text => some (.read, .error text)
    | _ => none

def create (cfg : Config) (spec : Spec) : GoE Unit := do
  let spec := spec.applyDefaults cfg.region
  ExceptT.mk (pure spec.validate)
  let (spec, _) ← ExceptT.mk (pure (resolveImage cfg.images spec))
  let n ← getNetwork spec.network
  let e ← allocate cfg spec
  launch e n
  (Proc.goto (.waitFor e spec.waitFor) : Go Unit)

def reached (w : WaitFor) (v : VM) : Bool × Except String Unit :=
  match v.state with
  | .failed => (true, .error ("vm failed: " ++ v.lastError))
  | .stopping | .stopped | .deleting => (true, .error ("vm failed: vm is " ++ v.state.name))
  | _ => match w with
    | .installed => (v.installedAt.isSome, .ok ())
    | .attested => (v.bootedAt.isSome && v.attestation.userDataReleased, .ok ())
    | .ready => (v.readyAt.isSome, .ok ())
    | _ => (true, .ok ())

/-- One round of the loop in `waitFor`; the environment ends the wait or wakes it up. -/
def waitFor (e : Nat) (w : WaitFor) : Go Unit := do
  let r ← record e
  if (reached w r).1 then perform .returned
  else
    let again ← Proc.step fun _ i _ => match i with
      | .ok => some (.read, true)
      | .err _ => some (.read, false)
      | _ => none
    if again then Proc.goto (.waitFor e w) else perform .returned

def startBoot (e : Nat) : GoE Unit := do
  let h ← startProcess e .boot
  let p ← track e .boot h
  supervise e p

def startInstalled (e : Nat) : Go Unit := do
  match ← (startBoot e).run with
  | .ok () => pure ()
  | .error err => perform (.update e (.failed ("start installed boot: " ++ err)))

def boot (e : Nat) : Go Unit := do
  lock e
  let ok ← Proc.step fun _ _ s =>
    if (s.record e).state = .installing ∧ (s.entries e).proc = none then
      if s.closing then some (.update e .handoffClosed, false) else some (.read, true)
    else some (.read, false)
  if ok then startInstalled e
  unlock e

def onTimeout (cfg : Config) (e p : Nat) (c : Console) : Go Unit := Proc.step fun _ _ s =>
  if (s.procs p).phase = .install ∧ (s.record e).state = .installing then some (.timedOut p, ())
  else if (s.procs p).phase = .boot ∧
      ((s.record e).state = .booting ∨ (s.record e).state = .attesting) then
    some (.update e (.overdue cfg.bootTimeout c), ())
  else some (.read, ())

def unsubscribe (e p : Nat) (phase : Phase) : Go Unit := do
  if phase = .boot then
    let r ← record e
    perform (.notify (.unsubscribe (.exit p) r.cid))

def onExit (cfg : Config) (e p : Nat) (exit : ExitStatus) (c : Console) : Go Unit := do
  let pr ← look fun s => s.procs p
  stopTPM pr.handles.tpm
  unsubscribe e p pr.phase
  let installed ← Proc.step fun _ _ s =>
    some (.exited e p exit cfg.installTimeout c, (s.record e).installerDone (s.procs p).phase (s.procs p).timedOut exit)
  perform (.closeDone p)
  if installed then boot e

inductive Wake where
  | ctxDone
  | exited (exit : ExitStatus) (c : Console)
  | notify (n : Notification) (c : Console)
  | hungUp
  | due (c : Console)

def run (cfg : Config) (e p : Nat) (due : Bool) : Go Unit := do
  let wake ← Proc.step fun _ i s => match i with
    | .ctxDone => if s.close.cancelled then some (.read, .ctxDone) else none
    | .exited c =>
      (s.qemus (s.procs p).handles.qemu).exit.map fun exit => (.read, Wake.exited exit c)
    | .notify c =>
      -- The installer's process has no channel.
      if (s.procs p).phase = .install then none
      else match s.notify.front p with
      | some n => some (.notify (.receive p n), .notify n c)
      | none => if s.notify.ended p then some (.notify (.hangUp p), .hungUp) else none
    | .due c => if due then some (.read, .due c) else none
    | _ => none
  match wake with
  | .ctxDone => perform (.shutdown .superviseEnd)
  | .exited exit c =>
    onExit cfg e p exit c
    perform (.shutdown .superviseEnd)
  | .notify n c =>
    perform (.update e (.notified n c))
    Proc.goto (.run e p due)
  | .hungUp => Proc.goto (.run e p due)
  | .due c =>
    onTimeout cfg e p c
    Proc.goto (.run e p false)

def openVolume (e : Nat) : GoE Unit := do
  let isOpen ← ExceptT.lift (look fun s => (s.entries e).volume)
  if isOpen then pure ()
  else
    let r ← record e
    acquireVolume r.id
    perform (.setVolume e true)

def startCheck (id : String) (e : Nat) : GoE Unit := ExceptT.mk <| look fun s =>
  if s.closing then .error errShuttingDown
  else if (s.record e).state = .deleting then
    .error ("conflict: vm " ++ id ++ " is being deleted")
  else if (s.entries e).proc ≠ none then
    .error ("conflict: vm " ++ id ++ " is " ++ (s.record e).state.name)
  else if (s.record e).installedAt = none then
    .error ("conflict: vm " ++ id ++ " never finished installing; delete and recreate it")
  else .ok ()

def startLocked (id : String) (e : Nat) : GoE Unit := do
  startCheck id e
  openVolume e
  match ← ExceptT.lift (startBoot e).run with
  | .ok () => pure ()
  | .error err =>
    perform (.update e (.failed err))
    throw err

def start (id : String) : GoE Unit := do
  let e ← lookupEntry id
  lock e
  let r ← ExceptT.lift (startLocked id e).run
  unlock e
  ExceptT.mk (pure r)

/-- `Instance.Stop` and `Kill`: a success means the process has ended. -/
def awaitExit (p : Nat) : GoE Unit := ExceptT.mk <| Proc.step fun _ i s => match i with
  | .ok => (s.qemus (s.procs p).handles.qemu).exit.map fun _ => (.read, .ok ())
  | .err text => some (.read, .error text)
  | _ => none

def stopOrKill (p : Nat) : Go Unit := do
  match ← (awaitExit p).run with
  | .ok () => pure ()
  | .error _ =>
    let _ ← (awaitExit p).run

def stopProcess (p : Nat) : Go Unit := do
  stopOrKill p
  Proc.step fun _ _ s => if (s.procs p).done then some (.read, ()) else none

def stop (id : String) : GoE Unit := do
  let e ← lookupEntry id
  let p ← ExceptT.mk <| Proc.step fun _ _ s =>
    if (s.record e).state = .deleting then
      some (.read, .error ("conflict: vm " ++ id ++ " is being deleted"))
    else match (s.entries e).proc with
      | none => some (.read, .error
          ("conflict: vm " ++ id ++ " is not running (" ++ (s.record e).state.name ++ ")"))
      | some p => some (.update e .stopping, .ok p)
  stopProcess p

def reboot (id : String) : GoE Unit := do
  stop id
  start id

def deleteCheck (id : String) (e : Nat) : GoE (Option Nat) := ExceptT.mk <|
  Proc.step fun _ _ s =>
    if s.vms.get id = none then some (.read, .error ("not found: vm \"" ++ id ++ "\""))
    else if (s.record e).state = .deleting then
      some (.read, .error ("conflict: vm " ++ id ++ " is already being deleted"))
    else some (.update e .deleting, .ok (s.entries e).proc)

def stopIfRunning : Option Nat → Go Unit
  | some p => stopProcess p
  | none => pure ()

def deleteLocked (id : String) (e : Nat) : GoE Unit := do
  let proc ← deleteCheck id e
  stopIfRunning proc
  teardown e
  perform (.remove id)
  perform (.metrics (.forget id))
  perform (.attest (.forgetState id))
  perform (.attest (.forgetNonces id))
  let r ← ExceptT.lift persistNetworks.run
  perform (.deleteReturns e id)
  ExceptT.mk (pure r)

def delete (id : String) : GoE Unit := do
  let e ← lookupEntry id
  lock e
  let r ← ExceptT.lift (deleteLocked id e).run
  unlock e
  ExceptT.mk (pure r)

end VmManager.Vm
