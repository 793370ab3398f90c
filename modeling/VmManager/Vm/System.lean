import VmManager.Attest.Verifier
import VmManager.Vm.Record

/-! The state of a vm-manager and its host, and the operations that change it. The host survives a
crash: QEMU and swtpm processes, volumes and the files of the state directory. The rest is the memory
of one vm-manager process. Every operation is one atomic step: a critical section or one call to the
host. The history of operations is kept for the properties about whole runs. -/
namespace VmManager.Vm
open Encoding Attest List Function

/-- A QEMU process. `entry` is the entry it was started for and `settled` says that a supervisor saw
its exit; the source keeps neither. -/
structure Qemu where
  vm : String
  phase : Phase
  cid : Nat
  entry : Nat
  exit : Option ExitStatus := none
  settled : Bool := false

structure Process where
  entry : Nat
  phase : Phase
  handles : Processes
  timedOut : Bool := false
  done : Bool := false
  /-- The goroutine in charge of the process: the one that started it, then the one that follows it. -/
  supervisor : Option Nat := none

/-- The source's `entry`. `opMu` is the goroutine that holds the mutex, and `late` says that Close had
begun when it was last taken; `owner` is the Create that made the entry and has not started its
installer. -/
structure Entry where
  record : VM
  userData : Bytes := []
  volume : Bool := false
  proc : Option Nat := none
  opMu : Option Nat := none
  late : Bool := false
  owner : Option Nat := none

def noVM : VM where
  serial := 0
  id := ""
  spec := { name := "", network := "" }
  state := .creating
  cid := 0
  machineID := ""
  attestation := {}
  createdAt := 0

def noEntry : Entry := { record := noVM }
def noProcess : Process := { entry := 0, phase := .install, handles := ⟨0, none⟩ }
def noQemu : Qemu :=
  { vm := "", phase := .install, cid := 0, entry := 0, exit := some ⟨0, ""⟩, settled := true }

/-- Calls to storage, to swtpm and to the files other than vm.json. `writeFile` is a file of the VM's
directory nothing here reads back: the ssh key, the OVMF variable store. -/
inductive HostOp where
  | writeFile (id : String)
  | writeUserData (id : String) (data : Bytes)
  | writeReport (id : String) (data : Bytes)
  | createVolume (id : String)
  | deleteVolume (id : String) (ok : Bool)
  | writeNetworks (states : List Network.State)
  | writeFailed
  | removeFailed (id : String)
  | startTPM (id : String) (tpm : Nat)
  | stopTPM (tpm : Nat)
deriving DecidableEq

/-- The networks and their metadata servers. Deleting a network is two steps, `check` and `delete`,
under the manager's lock; `keep` is a refusal, and a `delete` that is not `clean` reports an error.
`running` is `ServeIMDS` finding a server. -/
inductive NetOp where
  | attach (e n : Nat) (id : String) (ip : Network.Addr)
  | detach (e n : Nat) (id : String)
  | add (spec : Network.Spec) (leases : GoMap String Network.Addr)
  | check (name : String) (n : Nat)
  | keep (name : String)
  | delete (name : String) (n : Nat) (clean : Bool)
  | serve (name : String) (n : Nat)
  | running (name : String)
  | unserve (name : String) (srv : Option Nat)
  | closeServers (ks : List Nat)
  | shutdown (k : Nat)
deriving DecidableEq

inductive Leaving where
  | start (e : Nat)
  | exit (p : Nat)
  | detach
deriving DecidableEq

inductive NotifyOp where
  | subscribe (e cid : Nat)
  | unsubscribe (why : Leaving) (cid : Nat)
  | deliver (n : Notification)
  | receive (p : Nat) (n : Notification)
  | hangUp (p : Nat)
deriving DecidableEq

/-- The critical sections of the verifier and its nonce store, and the begin and end of a call of
SubmitQuote. `details` is the lookup of the stored result for the record. -/
inductive AttestOp where
  | issue (id : String) (nonce : Text)
  | submit (id : String)
  | consume (id : String) (nonce : Text) (ok : Bool)
  | enroll (id : String) (stage : Stage) (fingerprint : Text) (ok : Bool)
  | store (id : String) (stage : Stage) (r : Result)
  | details (id : String) (stage : Stage) (r : Option Result)
  | submitDone
  | forgetState (id : String)
  | forgetNonces (id : String)
deriving DecidableEq

inductive MetricsOp where
  | store (id : String) (data : Bytes)
  | forget (id : String)
deriving DecidableEq

inductive ForwardOp where
  | opened (e k : Nat)
  | register (e k : Nat)
  | close (k : Nat)
deriving DecidableEq

inductive CloseOp where
  | begins (es : List Nat)
  | stopsBegin (es : List Nat)
  | stopEnd (owner e : Nat)
  | cancel
  | superviseEnd
  | detachQemu (q : Nat)
  | returns (es : List Nat)
deriving DecidableEq

inductive Op where
  | read
  | returned
  | lock (e : Nat)
  | unlock (e : Nat)
  | update (e : Nat) (u : Update)
  | allocate (id machineID : String) (cid : Nat) (spec : Spec)
  | remove (id : String)
  | removeDir (id : String)
  | undoAllocate (id : String)
  | setVolume (e : Nat) (isOpen : Bool)
  | release (e : Nat) (forwards : List Nat)
  | host (o : HostOp)
  | net (o : NetOp)
  | attest (o : AttestOp)
  | shutdown (o : CloseOp)
  | notify (o : NotifyOp)
  | metrics (o : MetricsOp)
  | forward (o : ForwardOp)
  | runtimeStart (e : Nat) (phase : Phase) (cid : Nat) (q : Option Nat)
  | track (e : Nat) (phase : Phase) (h : Processes)
  | reattach (e : Nat) (phase : Phase) (h : Processes)
  | supervise (p : Nat) (supervisor : Nat)
  | timedOut (p : Nat)
  | exited (e p : Nat) (exit : ExitStatus) (timeout : String) (c : Console)
  | closeDone (p : Nat)
  | deleteReturns (e : Nat) (id : String)
  | loadNetworks (states : List Network.State)
  | loadDirs (ids : List String)
  | loadSkip (id : String)
  | loadEntry (id : String) (r : VM)
  | loaded
deriving DecidableEq

/-- What happens outside vm-manager: a QEMU ends, its guest sends a message to the listener, time passes,
the disk refuses or takes writes again, vm-manager ends at any point, and a new one starts on the same
state directory. -/
inductive Outside where
  | exit (q : Nat) (status : ExitStatus)
  | message (q port : Nat) (status : String) (ready : Bool)
  | tick (d : Nat)
  | disk (writable : Bool)
  | crash
  | start
deriving DecidableEq

inductive Happening where
  | did (t : Nat) (op : Op) (serial : Nat)
  | outside (x : Outside)

def Happening.isCrash : Happening → Bool
  | .outside .crash => true
  | _ => false

structure Host where
  volumes : GoMap String Unit := ∅
  files : GoMap String Unit := ∅
  userDataFiles : GoMap String Bytes := ∅
  reports : GoMap String Bytes := ∅
  networksFile : List Network.State := []
  tpms : Nat → Option String := fun _ => none
  nextTPM : Nat := 0

def HostOp.apply (h : Host) : HostOp → Host
  | .writeFile id => { h with files := h.files.insert id () }
  | .writeReport id data => { h with reports := h.reports.insert id data }
  | .writeFailed | .removeFailed _ => h
  | .writeUserData id data => { h with userDataFiles := h.userDataFiles.insert id data }
  | .createVolume id => { h with volumes := h.volumes.insert id () }
  | .deleteVolume id ok => { h with volumes := if ok then h.volumes.erase id else h.volumes }
  | .writeNetworks states => { h with networksFile := states }
  | .startTPM id tpm =>
    { h with tpms := update h.tpms tpm (some id), nextTPM := tpm + 1 }
  | .stopTPM tpm => { h with tpms := update h.tpms tpm none }

def NetOp.onNets (nets : Network.Manager) : NetOp → Network.Manager
  | .attach _ n id _ => nets.attach n id
  | .detach _ n id => nets.detach n id
  | .add spec leases => (nets.add spec leases).toOption.getD nets
  | .delete name n _ => nets.delete name n
  | _ => nets

def NetOp.onLock (t : Nat) (netMu : Option Nat) : NetOp → Option Nat
  | .check _ _ => some t
  | .delete _ _ _ => none
  | _ => netMu

def NetOp.onLease (lease : Nat → Option (Nat × Network.Addr)) : NetOp → Nat → Option (Nat × Network.Addr)
  | .attach e n _ ip => update lease e (some (n, ip))
  | .detach e _ _ => update lease e none
  | _ => lease

structure Server where
  net : Nat
  isShut : Bool := false
deriving DecidableEq, Repr

structure Servers where
  byName : GoMap String Nat := ∅
  all : Nat → Server := fun _ => { net := 0, isShut := true }
  next : Nat := 0

def NetOp.onServers (imds : Servers) : NetOp → Servers
  | .serve name n =>
    { byName := imds.byName.insert name imds.next
      all := update imds.all imds.next { net := n }
      next := imds.next + 1 }
  | .unserve name _ => { imds with byName := imds.byName.erase name }
  | .closeServers _ => { imds with byName := ∅ }
  | .shutdown k =>
    { imds with all := update imds.all k { imds.all k with isShut := true } }
  | _ => imds

/-- The channel of a subscription. `qemu` is the QEMU that was started for it and `start` the entry whose
start made it, until a process reads it; the source keeps neither. -/
structure Channel where
  queue : List Notification := []
  closed : Bool := false
  qemu : Option Nat := none
  start : Option Nat := none

def notifyBuffer : Nat := 16

structure Listener where
  subs : GoMap Nat Nat := ∅
  chans : Nat → Channel := fun _ => {}
  nextChan : Nat := 0
  starting : Nat → Option Nat := fun _ => none
  inbox : Nat → Option Nat := fun _ => none

namespace Listener
variable (l : Listener)

def modify (ch : Nat) (f : Channel → Channel) : Listener :=
  { l with chans := update l.chans ch (f (l.chans ch)) }

def subscribe (e cid : Nat) : Listener :=
  match l.subs.get cid with
  | some ch => { l with starting := update l.starting e (some ch) }
  | none =>
    { l with
      subs := l.subs.insert cid l.nextChan
      chans := update l.chans l.nextChan { start := some e }
      nextChan := l.nextChan + 1
      starting := update l.starting e (some l.nextChan) }

def unsubscribe (cid : Nat) : Listener :=
  match l.subs.get cid with
  | some ch => { l.modify ch fun c => { c with closed := true } with subs := l.subs.erase cid }
  | none => l

def deliver (n : Notification) : Listener :=
  match l.subs.get n.cid with
  | some ch =>
    if (l.chans ch).queue.length < notifyBuffer then
      l.modify ch fun c => { c with queue := c.queue ++ [n] }
    else l
  | none => l

def front (p : Nat) : Option Notification := (l.inbox p).bind fun ch => (l.chans ch).queue.head?

def ended (p : Nat) : Bool := (l.inbox p).any fun ch => (l.chans ch).closed && (l.chans ch).queue.isEmpty

def receive (p : Nat) : Listener :=
  match l.inbox p with
  | some ch => l.modify ch fun c => { c with queue := c.queue.tail }
  | none => l

def hangUp (p : Nat) : Listener := { l with inbox := update l.inbox p none }

def startedFor (e q : Nat) : Listener :=
  match l.starting e with
  | some ch => l.modify ch fun c => { c with qemu := some q }
  | none => l

def handOver (e : Nat) : Listener :=
  match l.starting e with
  | some ch => l.modify ch fun c => { c with start := none }
  | none => l

def readFor (e p : Nat) : Phase → Listener
  | .install => l
  | .boot => { l.handOver e with inbox := update l.inbox p (l.starting e) }

end Listener

def NotifyOp.apply (l : Listener) : NotifyOp → Listener
  | .subscribe e cid => l.subscribe e cid
  | .unsubscribe _ cid => l.unsubscribe cid
  | .deliver n => l.deliver n
  | .receive p _ => l.receive p
  | .hangUp p => l.hangUp p

def AttestOp.onVerifier (v : Verifier) (now : Nat) : AttestOp → Verifier
  | .issue id nonce => { v with nonces := v.nonces.issue now id nonce }
  | .consume id nonce _ => { v with nonces := (v.nonces.consume now id nonce).2 }
  | .enroll id stage fingerprint _ => (v.enroll id stage fingerprint).2
  | .store id stage r => v.store id stage r
  | .forgetState id => v.forgetState id
  | .forgetNonces id => { v with nonces := v.nonces.forget id }
  | _ => v

def AttestOp.onSubmitting (t : Nat) (submitting : GoMap Nat String) : AttestOp → GoMap Nat String
  | .submit id => submitting.insert t id
  | .submitDone => submitting.erase t
  | _ => submitting

structure GuestReport where
  data : Bytes
  uploads : Nat
deriving DecidableEq

def MetricsOp.apply (metrics : GoMap String GuestReport) : MetricsOp → GoMap String GuestReport
  | .store id data =>
    metrics.insert id ⟨data, ((metrics.get id).map fun r => r.uploads).getD 0 + 1⟩
  | .forget id => metrics.erase id

/-- The port forwards of one vm-manager process. The source keeps only those in an entry's list; the
entry each was opened for, which are closed and whose list was taken are kept for the properties. -/
structure Forwards where
  registered : Nat → List Nat := fun _ => []
  owner : Nat → Nat := fun _ => 0
  closed : Nat → Bool := fun _ => false
  released : Nat → Bool := fun _ => false
  next : Nat := 0

namespace Forwards
variable (f : Forwards)

def take (e : Nat) : Forwards :=
  { f with registered := update f.registered e [], released := update f.released e true }

end Forwards

def ForwardOp.apply (f : Forwards) : ForwardOp → Forwards
  | .opened e k => { f with
      owner := update f.owner k e, closed := update f.closed k false, next := k + 1 }
  | .register e k => { f with registered := update f.registered e (f.registered e ++ [k]) }
  | .close k => { f with closed := update f.closed k true }

structure Closing where
  begun : Bool := false
  cancelled : Bool := false
  /-- The supervisors that have not returned. -/
  wg : Nat := 0
  /-- The VMs whose stop a Close still waits for; the counter of its WaitGroup is their number. -/
  stops : Nat → List Nat := fun _ => []

def CloseOp.apply (t : Nat) (c : Closing) : CloseOp → Closing
  | .begins _ => { c with begun := true }
  | .stopsBegin es => { c with stops := update c.stops t es }
  | .stopEnd owner e => { c with stops := update c.stops owner ((c.stops owner).erase e) }
  | .cancel => { c with cancelled := true }
  | .superviseEnd => { c with wg := c.wg - 1 }
  | .detachQemu _ | .returns _ => c

structure System where
  qemus : Nat → Qemu := fun _ => noQemu
  nextQemu : Nat := 0
  host : Host := {}
  disk : GoMap String VM := ∅
  writable : Bool := true
  clock : Nat := 0
  nextSerial : Nat := 1
  up : Bool := false
  serving : Bool := false
  close : Closing := {}
  entries : Nat → Entry := fun _ => noEntry
  nextEntry : Nat := 0
  vms : GoMap String Nat := ∅
  procs : Nat → Process := fun _ => noProcess
  nextProc : Nat := 0
  nets : Network.Manager := {}
  netMu : Option Nat := none
  /-- The network and address each entry was given by `Attach` last, or found by Load. -/
  lease : Nat → Option (Nat × Network.Addr) := fun _ => none
  imds : Servers := {}
  notify : Listener := {}
  verifier : Verifier := {}
  metrics : GoMap String GuestReport := ∅
  forwards : Forwards := {}
  /-- The SubmitQuote calls in progress. -/
  submitting : GoMap Nat String := ∅
  /-- The goroutine that runs Load, the directories it has still to visit once it has listed them, and
  the entry it is about to reattach. -/
  loader : Option Nat := none
  pendingLoad : Option (List String) := none
  loading : Option Nat := none
  /-- A Create was overtaken before it took opMu: its VM was deleted, or Close had begun. -/
  overtaken : Bool := false
  hist : List Happening := []

namespace System
variable (s : System)

def record (e : Nat) : VM := (s.entries e).record

def closing : Bool := s.close.begun

/-- A critical section that writes the record of `e`, and vm.json if it saves; the directory is made
again if it is gone. -/
def updateRec (e : Nat) (u : Update) : System :=
  let r := (s.record e).update s.clock u
  { s with
    entries := update s.entries e
      { s.entries e with record := r, volume := (s.entries e).volume || u.opensVolume }
    disk := if u.saves && s.writable then s.disk.insert r.id r else s.disk }

def newVM (id machineID : String) (cid : Nat) (spec : Spec) : VM where
  serial := s.nextSerial
  id := id
  spec := { spec with userData := [], waitFor := .none }
  state := .creating
  cid := cid
  machineID := machineID
  attestation := { required := spec.requireAttestation }
  createdAt := s.clock

def addEntry (id : String) (x : Entry) : System :=
  { s with
    entries := update s.entries s.nextEntry x
    nextEntry := s.nextEntry + 1
    vms := s.vms.insert id s.nextEntry }

def modifyEntry (e : Nat) (f : Entry → Entry) : System :=
  { s with entries := update s.entries e (f (s.entries e)) }

def modifyProc (p : Nat) (f : Process → Process) : System :=
  { s with procs := update s.procs p (f (s.procs p)) }

def addProc (t e : Nat) (phase : Phase) (h : Processes) : System :=
  { s with
    procs := update s.procs s.nextProc
      { entry := e, phase := phase, handles := h, supervisor := some t }
    nextProc := s.nextProc + 1
    entries := update s.entries e
      { s.entries e with proc := some s.nextProc, owner := none } }

def dropProc (e p : Nat) : System :=
  let q := (s.procs p).handles.qemu
  { s with
    entries := update s.entries e { s.entries e with proc := none }
    qemus := update s.qemus q { s.qemus q with settled := true } }

/-- The VM has a directory: a write makes it, with the first file in it. -/
def dirExists (id : String) : Bool :=
  (s.disk.get id).isSome || (s.host.files.get id).isSome ||
    (s.host.userDataFiles.get id).isSome || (s.host.reports.get id).isSome

def usedCIDs : List Nat := s.vms.entries.map fun x => (s.record x.2).cid

def minCID : Nat := 3
def maxCID : Nat := 0xfffffffe

/-- The first free CID at or after `start`, wrapping around the valid range. Of one candidate more
than there are CIDs in use, one is free. -/
def freeCIDFrom (start : Nat) : Nat :=
  let span := maxCID - minCID
  let start := if start < minCID ∨ start ≥ maxCID then minCID else start
  let candidates := (range (min (s.usedCIDs.length + 1) span)).map fun i =>
    minCID + (start - minCID + i) % span
  (candidates.find? fun cid => !s.usedCIDs.contains cid).getD maxCID

def apply (t : Nat) : Op → System
  | .read | .returned => s
  | .lock e =>
    { s.modifyEntry e fun x => { x with opMu := some t, late := s.closing } with
      overtaken := s.overtaken || (s.closing && (s.entries e).owner == some t) }
  | .unlock e => s.modifyEntry e fun x => { x with opMu := none }
  | .update e u =>
    { s.updateRec e u with
      submitting := if u.endsSubmit then s.submitting.erase t else s.submitting
      loading := if u.endsLoading then none else s.loading
      overtaken := s.overtaken || (u.deletes && (s.entries e).owner.isSome) }
  | .allocate id machineID cid spec =>
    let r := s.newVM id machineID cid spec
    { s.addEntry id { record := r, userData := spec.userData, owner := some t } with
      nextSerial := s.nextSerial + 1
      disk := s.disk.insert id r
      lease := update s.lease s.nextEntry none }
  | .remove id => { s with vms := s.vms.erase id }
  | .removeDir id | .undoAllocate id =>
    { s with
      disk := s.disk.erase id
      host.files := s.host.files.erase id
      host.userDataFiles := s.host.userDataFiles.erase id
      host.reports := s.host.reports.erase id }
  | .setVolume e isOpen => s.modifyEntry e fun x => { x with volume := isOpen }
  | .release e _ =>
    { s.modifyEntry e fun x => { x with volume := false } with forwards := s.forwards.take e }
  | .host o => { s with host := o.apply s.host }
  | .net o =>
    { s with
      nets := o.onNets s.nets, netMu := o.onLock t s.netMu
      lease := o.onLease s.lease, imds := o.onServers s.imds }
  | .attest o =>
    { s with
      verifier := o.onVerifier s.verifier s.clock
      submitting := o.onSubmitting t s.submitting }
  | .shutdown o => { s with close := o.apply t s.close }
  | .notify o => { s with notify := o.apply s.notify }
  | .metrics o => { s with metrics := o.apply s.metrics }
  | .forward o => { s with forwards := o.apply s.forwards }
  | .runtimeStart e phase cid q =>
    { s with
      qemus := q.elim s.qemus fun q => update s.qemus q { vm := (s.record e).id, phase, cid, entry := e }
      nextQemu := q.elim s.nextQemu (· + 1)
      notify := q.elim s.notify fun q => if phase = .boot then s.notify.startedFor e q else s.notify }
  | .track e phase h =>
    { (s.addProc t e phase h).updateRec e (.started phase h) with
      notify := s.notify.readFor e s.nextProc phase }
  | .reattach e phase h =>
    { s.addProc t e phase h with
      loading := none
      notify := if phase = .boot then (s.notify.startedFor e h.qemu).readFor e s.nextProc phase
        else s.notify }
  | .supervise p k =>
    { s.modifyProc p fun x => { x with supervisor := some k } with close.wg := s.close.wg + 1 }
  | .timedOut p => s.modifyProc p fun x => { x with timedOut := true }
  | .exited e p exit timeout c =>
    let pr := s.procs p
    (s.dropProc e p).updateRec e (.exited pr.phase pr.timedOut exit timeout c)
  | .closeDone p => s.modifyProc p fun x => { x with done := true }
  | .deleteReturns _ _ | .loadNetworks _ => s
  | .loadDirs ids => { s with pendingLoad := some ids }
  | .loadSkip _ => { s with pendingLoad := s.pendingLoad.map tail }
  | .loadEntry id r =>
    { s.addEntry id { record := r.loaded, userData := (s.host.userDataFiles.get id).getD [] } with
      pendingLoad := s.pendingLoad.map tail
      loading := if r.loaded.state.live then some s.nextEntry else none
      lease := update s.lease s.nextEntry (s.nets.leaseOf r.spec.network id) }
  | .loaded => { s with serving := true, loader := none, pendingLoad := none }

end System

def Op.entry? : Op → Option Nat
  | .lock e | .unlock e | .update e _ | .setVolume e _ | .release e _ | .runtimeStart e _ _ _
  | .track e _ _ | .reattach e _ _ | .exited e _ _ _ _ | .deleteReturns e _ => some e
  | _ => none

namespace System

def log (s : System) (t : Nat) (op : Op) : Happening :=
  .did t op (match op.entry? with | some e => (s.record e).serial | none => 0)

def effect (t : Nat) (op : Op) (s : System) : System :=
  { s.apply t op with hist := s.log t op :: s.hist }

def forget (s : System) : System :=
  { qemus := s.qemus, nextQemu := s.nextQemu, host := s.host, disk := s.disk, writable := s.writable
    clock := s.clock, nextSerial := s.nextSerial, nextEntry := s.nextEntry, nextProc := s.nextProc
    hist := s.hist }

/-- The state after an outside event; `n` is the number of the goroutine a start runs Load in. -/
def outside (s : System) (n : Nat) : Outside → Option System
  | .exit q status =>
    if q < s.nextQemu ∧ (s.qemus q).exit = none then
      some { s with qemus := update s.qemus q { s.qemus q with exit := some status } }
    else none
  | .message q _ _ _ => if s.up ∧ q < s.nextQemu ∧ (s.qemus q).exit = none then some s else none
  | .tick d => some { s with clock := s.clock + d }
  | .disk writable => some { s with writable := writable }
  | .crash => if s.up then some s.forget else none
  | .start => if s.up then none else some { s with up := true, loader := some n }

abbrev noting (s' : System) (x : Outside) (s : System) : System := { s' with hist := .outside x :: s.hist }

end System

end VmManager.Vm
