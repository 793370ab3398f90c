import VmManager.Interleaving.Outline
import VmManager.Vm.Service

/-! What holds where the service performs an operation. The predicates here say who is in charge of an
entry and of its processes; `Guard` collects, operation by operation, what the goroutine that performs
it knows, and `Inv` what holds between any two operations. -/
namespace VmManager.Vm
open Encoding Attest Interleaving

def Op.isRead : Op → Bool
  | .read => true
  | _ => false

namespace System
variable (s : System)

def Alive (e : Nat) : Prop := (s.record e).serial ≠ 0

def Unsettled (e q : Nat) : Prop := s.Alive e ∧ (s.qemus q).entry = e ∧ (s.qemus q).settled = false

def Tracked (e q : Nat) : Prop := ∃ p, (s.entries e).proc = some p ∧ (s.procs p).handles.qemu = q

def Covered (e : Nat) : Prop := ∀ q, s.Unsettled e q → s.Tracked e q

def Present (e : Nat) : Prop := s.vms.get (s.record e).id = some e

instance (e : Nat) : Decidable (s.Present e) := inferInstanceAs (Decidable (_ = _))

def Supervises (t e p : Nat) : Prop := (s.entries e).proc = some p ∧ (s.procs p).supervisor = some t

/-- Unless a Create was overtaken, the entry is still known. -/
def Kept (e : Nat) : Prop := s.overtaken = false → s.Present e

/-- Once Close has begun, the lock was taken before that, unless a Create was overtaken. -/
def InTime (e : Nat) : Prop := s.closing = true → (s.entries e).late = true → s.overtaken = true

def Ready (t e : Nat) : Phase → Prop
  | .install => (s.entries e).owner = some t
  | .boot =>
    (s.entries e).owner = none ∧ (s.record e).installedAt ≠ none ∧ (s.record e).state ≠ .deleting

def Vacant (t e : Nat) : Prop :=
  (s.entries e).opMu = some t ∧ s.Alive e ∧ (s.entries e).proc = none ∧ ∀ q, ¬ s.Unsettled e q

def Yields (t e : Nat) : Prop :=
  s.Vacant t e ∧ s.Kept e ∧ ((s.record e).state = .deleting ∨ (s.entries e).owner = some t)

def Releases (t : Nat) (id : String) : Prop := ∃ e, (s.record e).id = id ∧ s.Yields t e

def InCharge (t e : Nat) : Prop := (s.entries e).opMu = some t ∨ (s.loader = some t ∧ s.loading = some e)

/-- What a process needs besides its QEMU: a lease, and a channel for the installed boot. -/
def Equipped (e : Nat) (phase : Phase) : Prop := s.lease e ≠ none ∧ (phase = .boot → s.notify.starting e ≠ none)

def Called (n : Nat) (name : String) : Prop := ∃ net, s.nets.net n = some net ∧ net.spec.name = name

def Holds (st : Network.State) : Prop :=
  s.nets.get st.spec.name ≠ none ∧
    ∀ id ip, st.leases.get id = some ip → ∃ n, s.nets.leaseOf st.spec.name id = some (n, ip)

def Restored : Prop := ∀ st ∈ s.host.networksFile, s.Holds st

/-- Close has visited the entry: it was locked since, and nothing started after that. -/
def Visited (e : Nat) (P : Nat → Prop) : Prop :=
  s.closing = true ∧ (s.entries e).late = true ∧ (s.overtaken = false → ∀ q, s.Unsettled e q → s.Tracked e q ∧ P q)

def acts (t : Nat) : List Op :=
  s.hist.filterMap fun
    | .did t' op _ => if t' = t ∧ op.isRead = false then some op else none
    | .outside _ => none

def Resaved (t : Nat) : Prop := ∀ e, s.Alive e → .update e .resaved ∈ s.acts t

def accepted (id : String) (stage : Stage) (nonce : Text) (r : Result) : List Op :=
  [.attest (.enroll id stage r.akFingerprint true), .attest (.consume id nonce true), .attest (.submit id)]

/-- The goroutine has the verdict `r` of its submission and the details `d`, and the quote is made of
them. -/
def Assembled (t : Nat) (id : String) (stage : Stage) (q : Quote) : Prop :=
  ∃ r d rest, s.acts t = .attest (.details id stage d) :: .attest (.store id stage r) :: rest ∧
    q.verified = r.verified ∧ q.message = r.message ∧ q.akFingerprint = (d.map fun x => x.akFingerprint).getD [] ∧
    q.pcrs = (d.map fun x => x.pcrs).getD [] ∧ q.learned = (d.map fun x => x.learned).getD [] ∧
    (r.verified = true → ∃ nonce, rest = accepted id stage nonce r)

def Sent (n : Notification) : Prop := .outside (.message n.sender n.port n.status n.ready) ∈ s.hist

def Leaves (t p cid : Nat) : Prop :=
  ∃ e, s.Supervises t e p ∧ (s.procs p).phase = .boot ∧
    (s.qemus (s.procs p).handles.qemu).exit ≠ none ∧ (s.record e).cid = cid

def Forsakes (t : Nat) (id : String) : Prop :=
  ∃ e, (s.record e).id = id ∧ s.Vacant t e ∧ (s.record e).state = .deleting ∧ ¬ s.Present e

def forgets (id : String) : List Op := [.attest (.forgetNonces id), .attest (.forgetState id), .metrics (.forget id)]

end System

def Update.Guard (s : System) (t e : Nat) : Update → Prop
  | .volume _ => (s.entries e).opMu = some t ∧ (s.entries e).owner = some t
  | .leased ip mac => (s.entries e).opMu = some t ∧ (s.entries e).owner = some t ∧
      (∃ n, s.lease e = some (n, ip)) ∧ mac = Network.macFor (s.record e).spec.network ip
  | .reassigned cid => s.Vacant t e ∧ (∃ phase, s.Ready t e phase) ∧ cid = s.freeCIDFrom ((s.record e).cid + 1)
  | .installing _ | .booting _ | .exited .. => False
  | .failed _ => s.Vacant t e ∧ s.Ready t e .boot
  | .handoffClosed => s.Vacant t e ∧ (s.record e).state = .installing ∧ s.closing = true
  | .stopping => (s.entries e).proc ≠ none ∧ (s.record e).state ≠ .deleting
  | .overdue _ _ => (∃ p, s.Supervises t e p ∧ (s.procs p).phase = .boot) ∧
      ((s.record e).state = .booting ∨ (s.record e).state = .attesting)
  | .notified n _ => ∃ p, s.Supervises t e p ∧ (s.procs p).phase = .boot ∧ ∃ l, s.acts t = .notify (.receive p n) :: l
  | .deleting => (s.entries e).opMu = some t ∧ (s.record e).state ≠ .deleting ∧ s.serving = true
  | .nonceIssued => s.Present e
  | .quoteRecorded stage q _ => s.Present e ∧ s.submitting.get t = some (s.record e).id ∧
      s.Assembled t (s.record e).id stage q
  | .reattachFailed _ => s.loader = some t ∧ s.loading = some e
  | .resaved => s.loader = some t ∧ s.loading = none

def AttestOp.Guard (s : System) (t : Nat) : AttestOp → Prop
  | .submit _ => s.acts t = []
  | .consume id nonce ok => s.acts t = [.attest (.submit id)] ∧ s.submitting.get t = some id ∧
      ok = (s.verifier.nonces.consume s.clock id nonce).1
  | .enroll id stage fingerprint ok => s.submitting.get t = some id ∧
      (∃ nonce, s.acts t = [.attest (.consume id nonce true), .attest (.submit id)]) ∧
      stage.valid = true ∧ ok = (s.verifier.enroll id stage fingerprint).1 ∧ fingerprint ≠ []
  | .store id stage r => s.submitting.get t = some id ∧
      (r.verified = true → ∃ nonce, s.acts t = System.accepted id stage nonce r)
  | .details id stage d => s.submitting.get t = some id ∧ d = s.verifier.result id stage ∧
      ∃ r rest, s.acts t = .attest (.store id stage r) :: rest
  | .forgetState id | .forgetNonces id => s.Forsakes t id
  | .issue _ _ | .submitDone => True

def NetOp.Guard (s : System) (t : Nat) : NetOp → Prop
  | .attach e n id ip => s.Alive e ∧ s.InCharge t e ∧ (s.record e).id = id ∧
      ∃ net net', s.nets.net n = some net ∧ net.attach id = .ok (ip, net') ∧ net.spec.name = (s.record e).spec.network
  | .detach e _ id => s.serving = true ∧ (s.record e).id = id ∧ s.Yields t e
  | .add spec leases => s.netMu = none ∧ ((s.serving = true ∧ leases = ∅) ∨
      (s.loader = some t ∧ s.pendingLoad = none ∧ ⟨spec, leases⟩ ∈ s.host.networksFile)) ∧
      ∃ m, s.nets.add spec leases = .ok m
  | .check name n => s.netMu = none ∧ s.serving = true ∧ s.nets.check name = .ok n
  | .delete name n _ => s.netMu = some t ∧ s.serving = true ∧ s.nets.get name = some n
  | .serve name n => s.imds.byName.get name = none ∧ s.Called n name
  | .running name => s.imds.byName.get name ≠ none
  | .unserve name srv => srv = s.imds.byName.get name
  | .closeServers ks => ks = s.imds.byName.entries.map fun x => x.2
  | _ => True

def HostOp.Guard (s : System) (t : Nat) : HostOp → Prop
  | .writeFile id | .writeUserData id _ | .createVolume id =>
      ∃ e, (s.record e).id = id ∧ s.Alive e ∧ (s.entries e).opMu = some t ∧ (s.entries e).owner = some t
  | .writeReport id _ => s.writable = true ∧ ∃ e, (s.record e).id = id ∧ s.Present e
  | .deleteVolume id _ => s.Releases t id
  | .writeNetworks _ => s.serving = true ∧ s.writable = true
  | .writeFailed => s.writable = false
  | .startTPM _ tpm => tpm = s.host.nextTPM
  | _ => True

def NotifyOp.Guard (s : System) (t : Nat) : NotifyOp → Prop
  | .subscribe e cid => (s.Vacant t e ∨ (s.loader = some t ∧ s.loading = some e)) ∧ (s.record e).cid = cid
  | .unsubscribe (.start e) _ => (s.entries e).opMu = some t
  | .unsubscribe (.exit p) cid => s.Leaves t p cid
  | .unsubscribe .detach _ => s.closing = true
  | .receive p n => s.notify.front p = some n ∧ ∃ e, s.Supervises t e p
  | .hangUp p => s.notify.ended p = true ∧ ∃ e, s.Supervises t e p
  | .deliver n => s.Sent n

def MetricsOp.Guard (s : System) (t : Nat) : MetricsOp → Prop
  | .store _ _ => True
  | .forget id => s.Forsakes t id

def ForwardOp.Guard (s : System) (t : Nat) : ForwardOp → Prop
  | .opened e k => s.Alive e ∧ k = s.forwards.next
  | .register e k => ∃ l, s.acts t = .forward (.opened e k) :: l
  | .close _ => True

def CloseOp.Guard (cfg : Config) (s : System) (t : Nat) : CloseOp → Prop
  | .begins es => s.serving = true ∧ es = s.vms.entries.map fun x => x.2
  | .stopEnd _ e => s.Visited e fun _ => False
  | .returns _ => s.closing = true ∧ ∀ e, s.Present e →
      s.Visited e fun q => cfg.detachOnClose = true ∧ .shutdown (.detachQemu q) ∈ s.acts t
  | _ => True

/-- What goroutine `t` relies on where it performs an operation. -/
def Op.Guard (cfg : Config) (s : System) (t : Nat) : Op → Prop
  | .lock e => (s.entries e).opMu = none ∧ s.Alive e ∧ s.loading ≠ some e
  | .unlock e => (s.entries e).opMu = some t ∧ s.Covered e ∧ ((s.record e).state = .deleting → ¬ s.Present e)
  | .update e u => s.Alive e ∧ u.Guard s t e
  | .allocate id _ cid _ => s.serving = true ∧ s.closing = false ∧ s.vms.get id = none ∧ cid = s.freeCIDFrom cfg.cidBase
  | .undoAllocate id => s.serving = true ∧ s.vms.get id = none ∧ s.writable = false
  | .remove id | .removeDir id => s.Releases t id
  | .host o => o.Guard s t
  | .net o => o.Guard s t
  | .notify o => o.Guard s t
  | .setVolume e _ => s.Alive e
  | .release e ks => s.Alive e ∧ (s.entries e).opMu = some t ∧ ks = s.forwards.registered e
  | .forward o => o.Guard s t
  | .metrics o => o.Guard s t
  | .runtimeStart e phase _ q => s.Vacant t e ∧ s.Ready t e phase ∧ s.Kept e ∧ s.InTime e ∧
      (∀ q', q = some q' → q' = s.nextQemu) ∧ s.Equipped e phase
  | .track e phase h => (s.entries e).opMu = some t ∧ s.Alive e ∧ (s.entries e).proc = none ∧
      (∀ q, s.Unsettled e q → q = h.qemu) ∧ s.Ready t e phase ∧ s.Kept e ∧ s.InTime e ∧
      ((s.record e).state = .deleting → ¬ s.Present e) ∧ h.qemu < s.nextQemu ∧
      (s.qemus h.qemu).entry = e ∧ (s.qemus h.qemu).phase = phase ∧ s.Equipped e phase
  | .reattach e phase h => s.loader = some t ∧ s.loading = some e ∧ (s.record e).phase = phase ∧
      (∃ h', (s.record e).processes = some h' ∧ h'.qemu = h.qemu ∧ h.qemu < s.nextQemu) ∧ s.Equipped e phase
  | .supervise p _ | .timedOut p => ∃ e, s.Supervises t e p
  | .exited e p exit _ _ => s.Alive e ∧ s.Supervises t e p ∧ (s.qemus (s.procs p).handles.qemu).exit = some exit
  | .closeDone p => p < s.nextProc ∧ ∀ e, (s.entries e).proc ≠ some p
  | .deleteReturns e id => s.Vacant t e ∧ (s.record e).state = .deleting ∧ (s.record e).id = id ∧
      (.removeDir id ∈ s.acts t ∨ .host (.removeFailed id) ∈ s.acts t) ∧
      (∀ o ∈ System.forgets id, o ∈ s.acts t) ∧ ∃ ks, .release e ks ∈ s.acts t
  | .attest o => o.Guard s t
  | .shutdown o => o.Guard cfg s t
  | .loadDirs ids => s.loader = some t ∧ s.pendingLoad = none ∧ ids = s.disk.keys.insertionSort (· ≤ ·)
  | .loadSkip id => s.loader = some t ∧ s.loading = none ∧ (∃ rest, s.pendingLoad = some (id :: rest)) ∧ s.Resaved t
  | .loadEntry id r => s.loader = some t ∧ s.loading = none ∧ s.disk.get id = some r ∧ r.id = id ∧
      (∃ rest, s.pendingLoad = some (id :: rest)) ∧ s.Restored ∧ s.Resaved t
  | .loadNetworks states => s.loader = some t ∧ states = s.host.networksFile
  | .loaded => s.loader = some t ∧ s.loading = none ∧ s.pendingLoad = some [] ∧ s.Restored ∧ s.Resaved t
  | _ => True

end VmManager.Vm
