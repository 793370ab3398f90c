import VmManager.Vm.Attribution

/-! States of the service that differ in messages from unprivileged ports and in what such messages may
change: the status texts of records. Operations that are alike take such states to such states. -/
namespace VmManager.Vm
open Encoding Attest Interleaving List Option Function Vm.System VM Listener GoMap
variable {cfg : Config} {s s' z z' : System} {t t' e p c : Nat} {o o' : Op} {n : Notification} {x : Outside}
  {r r' : VM}

def privilegedPorts : Nat := 1024

def Notification.privileged (n : Notification) : Bool := n.port < privilegedPorts

/-- The delivery, the reading and the handling of a message from an unprivileged port. -/
def Op.unprivileged : Op → Bool
  | .notify (.deliver n) | .notify (.receive _ n) | .update _ (.notified n _) => !n.privileged
  | _ => false

@[grind →]
theorem Op.unprivileged_cases {o : Op} (h : o.unprivileged = true) : (∃ n, o = .notify (.deliver n)) ∨
    (∃ p n, o = .notify (.receive p n)) ∨ ∃ e n c, o = .update e (.notified n c) := by
  unfold unprivileged at h
  split at h
  · exact .inl ⟨_, rfl⟩
  · exact .inr (.inl ⟨_, _, rfl⟩)
  · exact .inr (.inr ⟨_, _, _, rfl⟩)
  · cases h

namespace VM

def muted (r : VM) : VM := { r with status := "" }

theorem muted_onExit (r : VM) (now : Nat) (phase : Phase) (timedOut : Bool) (exit : ExitStatus)
    (timeout : String) (c : Console) : (r.onExit now phase timedOut exit timeout c).muted =
      (r.muted.onExit now phase timedOut exit timeout c).muted := by
  simp only [onExit, apply_ite muted]
  rfl

theorem muted_onNotify (r : VM) (now : Nat) (n : Notification) (c : Console) :
    (r.onNotify now n c).muted = (r.muted.onNotify now n c).muted := by
  by_cases hs : n.status = ""
  · simp only [onNotify, hs, if_true, apply_ite muted]
    rfl
  · simp only [onNotify, hs, if_false, apply_ite muted]
    rfl

theorem muted_onNonce (r : VM) (now : Nat) : (r.onNonce now).muted = (r.muted.onNonce now).muted := by
  simp only [onNonce, apply_ite muted]
  rfl

theorem muted_update (r : VM) (now : Nat) (u : Update) :
    (r.update now u).muted = (r.muted.update now u).muted := by
  cases u with
  | exited phase timedOut exit timeout c => exact r.muted_onExit now phase timedOut exit timeout c
  | notified n c => exact r.muted_onNotify now n c
  | nonceIssued => exact r.muted_onNonce now
  | _ => rfl

theorem muted_loaded (r : VM) : r.loaded.muted = r.muted.loaded.muted := by
  simp only [loaded, apply_ite muted]
  rfl

theorem muted_notified (r : VM) (now : Nat) (hn : n.ready = false) (c : Console) :
    (r.update now (.notified n c)).muted = r.muted := by
  simp only [update, onNotify, muted, hn]
  split_ifs <;> simp_all

end VM

def Channel.audible (c : Channel) : Channel := { c with queue := c.queue.filter (·.privileged) }

structure Listener.Alike (l l' : Listener) : Prop where
  subs : l.subs = l'.subs
  nextChan : l.nextChan = l'.nextChan
  starting : l.starting = l'.starting
  inbox : l.inbox = l'.inbox
  chans : ∀ ch, (l.chans ch).audible = (l'.chans ch).audible

namespace Listener.Alike
variable {l l' : Listener}

theorem symm (h : l.Alike l') : l'.Alike l :=
  ⟨h.subs.symm, h.nextChan.symm, h.starting.symm, h.inbox.symm, fun ch => (h.chans ch).symm⟩

theorem modify (h : l.Alike l') {ch : Nat} {f g : Channel → Channel}
    (hf : (f (l.chans ch)).audible = (g (l'.chans ch)).audible) :
    (l.modify ch f).Alike (l'.modify ch g) := by
  refine { h with chans := fun c => ?_ }
  rw [l.chans_modify, l'.chans_modify]
  split
  · exact hf
  · exact h.chans c

theorem subscribe (h : l.Alike l') (e cid : Nat) : (l.subscribe e cid).Alike (l'.subscribe e cid) := by
  unfold Listener.subscribe
  rw [h.subs]
  cases l'.subs.get cid with
  | some ch =>
    exact { h with subs := rfl, starting := congrArg (fun f => update f e (some ch)) h.starting }
  | none =>
    dsimp only
    rw [h.nextChan, h.starting]
    refine ⟨rfl, rfl, rfl, h.inbox, fun c => ?_⟩
    simp only [update_apply]
    split
    · rfl
    · exact h.chans c

theorem unsubscribe (h : l.Alike l') (cid : Nat) : (l.unsubscribe cid).Alike (l'.unsubscribe cid) := by
  unfold Listener.unsubscribe
  rw [h.subs]
  cases l'.subs.get cid with
  | some ch =>
    have hm := h.modify (f := fun c => { c with closed := true }) (g := fun c => { c with closed := true })
      (congrArg (fun c => { c with closed := true }) (h.chans ch))
    exact { hm with subs := rfl }
  | none => exact h

theorem startedFor (h : l.Alike l') (e q : Nat) : (l.startedFor e q).Alike (l'.startedFor e q) := by
  unfold Listener.startedFor
  rw [h.starting]
  cases l'.starting e with
  | some ch => exact h.modify (congrArg (fun c => { c with qemu := some q }) (h.chans ch))
  | none => exact h

theorem handOver (h : l.Alike l') (e : Nat) : (l.handOver e).Alike (l'.handOver e) := by
  unfold Listener.handOver
  rw [h.starting]
  cases l'.starting e with
  | some ch => exact h.modify (congrArg (fun c => { c with start := none }) (h.chans ch))
  | none => exact h

theorem readFor (h : l.Alike l') (e p : Nat) (phase : Phase) :
    (l.readFor e p phase).Alike (l'.readFor e p phase) := by
  cases phase with
  | install => exact h
  | boot =>
    have ho := h.handOver e
    exact { ho with inbox := by simp only [Listener.readFor, h.inbox, h.starting] }

theorem hangUp (h : l.Alike l') (p : Nat) : (l.hangUp p).Alike (l'.hangUp p) :=
  { h with inbox := by simp only [Listener.hangUp, h.inbox] }

theorem deliver_hidden (h : l.Alike l') (hn : n.privileged = false) :
    (l.deliver n).Alike l' := by
  unfold Listener.deliver
  split
  · split
    · refine { h with chans := fun c => ?_ }
      rw [l.chans_modify]
      split
      · rename_i ch _ _ heq
        rw [heq, ← h.chans ch]
        simp [Channel.audible, filter_append, hn]
      · exact h.chans c
    · exact h
  · exact h

theorem deliver (h : l.Alike l') (hl : ∀ ch, l.subs.get n.cid = some ch → (l.chans ch).queue.length < notifyBuffer)
    (hl' : ∀ ch, l'.subs.get n.cid = some ch → (l'.chans ch).queue.length < notifyBuffer) :
    (l.deliver n).Alike (l'.deliver n) := by
  unfold Listener.deliver
  cases hsub : l.subs.get n.cid with
  | none =>
    rw [← h.subs, hsub]
    exact h
  | some ch =>
    have hsub' : l'.subs.get n.cid = some ch := h.subs ▸ hsub
    rw [hsub']
    simp only [hl ch hsub, hl' ch hsub', if_true]
    refine h.modify ?_
    have hc := h.chans ch
    simp only [Channel.audible, Channel.mk.injEq] at hc
    simp only [Channel.audible, filter_append, hc]

theorem receive_hidden (h : l.Alike l') (hn : n.privileged = false)
    (hf : l.front p = some n) : (l.receive p).Alike l' := by
  rw [Listener.front, bind_eq_some_iff] at hf
  obtain ⟨ch, hin, hhead⟩ := hf
  obtain ⟨rest, hq⟩ : ∃ rest, (l.chans ch).queue = n :: rest := head?_eq_some_iff.1 hhead
  rw [receive, hin]
  refine { h with chans := fun c => ?_ }
  rw [l.chans_modify]
  split
  · rename_i heq
    rw [heq, ← h.chans ch]
    simp [Channel.audible, hq, hn]
  · exact h.chans c

theorem front (h : l.Alike l') {n n' : Notification} (hn : n.privileged = true)
    (hn' : n'.privileged = true) (hf : l.front p = some n) (hf' : l'.front p = some n') :
    n = n' ∧ (l.receive p).Alike (l'.receive p) := by
  rw [Listener.front, bind_eq_some_iff] at hf hf'
  obtain ⟨ch, hin, hhead⟩ := hf
  obtain ⟨ch', hin', hhead'⟩ := hf'
  obtain rfl : ch = ch' := some.inj (hin.symm.trans (h.inbox ▸ hin'))
  obtain ⟨rest, hq⟩ : ∃ rest, (l.chans ch).queue = n :: rest := head?_eq_some_iff.1 hhead
  obtain ⟨rest', hq'⟩ : ∃ rest, (l'.chans ch).queue = n' :: rest := head?_eq_some_iff.1 hhead'
  have hc := h.chans ch
  simp only [Channel.audible, Channel.mk.injEq, hq, hq', filter_cons, hn, hn', if_true, cons.injEq] at hc
  refine ⟨hc.1.1, ?_⟩
  rw [receive, receive, hin, hin']
  refine h.modify ?_
  simp only [Channel.audible, hq, hq', tail_cons, hc]

theorem front_ne_none (h : l.Alike l') (hn : n.privileged = true) (hf : l.front p = some n) :
    l'.front p ≠ none := by
  rw [Listener.front, bind_eq_some_iff] at hf
  obtain ⟨ch, hin, hhead⟩ := hf
  obtain ⟨rest, hq⟩ : ∃ rest, (l.chans ch).queue = n :: rest := head?_eq_some_iff.1 hhead
  intro hnone
  rw [Listener.front, ← h.inbox, hin, bind_some, head?_eq_none_iff] at hnone
  have hc := congrArg Channel.queue (h.chans ch)
  simp [Channel.audible, hq, hnone, hn] at hc

end Listener.Alike

def Entry.muted (x : Entry) : Entry :=
  { x with record := x.record.muted, opMu := none, late := false, owner := none }

def Process.muted (x : Process) : Process := { x with supervisor := none }

/-- The states differ in messages from unprivileged ports, in status texts, in the numbers of goroutines and
in what no program reads. -/
structure System.Akin (s s' : System) : Prop where
  qemus : s.qemus = s'.qemus
  nextQemu : s.nextQemu = s'.nextQemu
  host : s.host = s'.host
  disk : ∀ id, (s.disk.get id).map muted = (s'.disk.get id).map muted
  writable : s.writable = s'.writable
  clock : s.clock = s'.clock
  nextSerial : s.nextSerial = s'.nextSerial
  closing : s.closing = s'.closing
  entries : ∀ e, (s.entries e).muted = (s'.entries e).muted
  nextEntry : s.nextEntry = s'.nextEntry
  vms : s.vms = s'.vms
  procs : ∀ p, (s.procs p).muted = (s'.procs p).muted
  nextProc : s.nextProc = s'.nextProc
  nets : s.nets = s'.nets
  imds : s.imds = s'.imds
  notify : s.notify.Alike s'.notify
  verifier : s.verifier = s'.verifier
  forwards : s.forwards = s'.forwards

/-- A message from a privileged port finds a place in its channel, and the next one of the channel is read. -/
def Op.Fits (s : System) : Op → Prop
  | .notify (.deliver n) => ∀ ch, s.notify.subs.get n.cid = some ch →
      (s.notify.chans ch).queue.length < notifyBuffer
  | .notify (.receive p n) => s.notify.front p = some n
  | _ => True

/-- The same operation, not one for a message from an unprivileged port; records may differ in their status
and goroutines in their numbers. -/
inductive Op.Like : Op → Op → Prop where
  | same {o : Op} (h : o.unprivileged = false) : Like o o
  | loads (id : String) {r r' : VM} (h : r.muted = r'.muted) : Like (.loadEntry id r) (.loadEntry id r')
  | supervises (p k k' : Nat) : Like (.supervise p k) (.supervise p k')
  | stopEnds (e w w' : Nat) : Like (.shutdown (.stopEnd w e)) (.shutdown (.stopEnd w' e))

theorem Op.Like.visible (h : o.Like o') : o.unprivileged = false := by
  cases h with
  | same h => exact h
  | _ => rfl

namespace System.Akin

theorem refl (s : System) : s.Akin s :=
  ⟨rfl, rfl, rfl, fun _ => rfl, rfl, rfl, rfl, rfl, fun _ => rfl, rfl, rfl, fun _ => rfl, rfl, rfl, rfl,
    ⟨rfl, rfl, rfl, rfl, fun _ => rfl⟩, rfl, rfl⟩

theorem symm (h : s.Akin s') : s'.Akin s where
  qemus := h.qemus.symm
  nextQemu := h.nextQemu.symm
  host := h.host.symm
  disk id := (h.disk id).symm
  writable := h.writable.symm
  clock := h.clock.symm
  nextSerial := h.nextSerial.symm
  closing := h.closing.symm
  entries e := (h.entries e).symm
  nextEntry := h.nextEntry.symm
  vms := h.vms.symm
  procs p := (h.procs p).symm
  nextProc := h.nextProc.symm
  nets := h.nets.symm
  imds := h.imds.symm
  notify := h.notify.symm
  verifier := h.verifier.symm
  forwards := h.forwards.symm

section Read
variable (h : s.Akin s')
include h

theorem record (e : Nat) : (s.record e).muted = (s'.record e).muted := congrArg Entry.record (h.entries e)

theorem proc (e : Nat) : (s.entries e).proc = (s'.entries e).proc := (congrArg Entry.proc (h.entries e) :)

theorem userData (e : Nat) : (s.entries e).userData = (s'.entries e).userData :=
  (congrArg Entry.userData (h.entries e) :)

theorem volume (e : Nat) : (s.entries e).volume = (s'.entries e).volume := (congrArg Entry.volume (h.entries e) :)

theorem id (e : Nat) : (s.record e).id = (s'.record e).id := (congrArg VM.id (h.record e) :)

theorem spec (e : Nat) : (s.record e).spec = (s'.record e).spec := (congrArg VM.spec (h.record e) :)

theorem state (e : Nat) : (s.record e).state = (s'.record e).state := (congrArg VM.state (h.record e) :)

theorem cid (e : Nat) : (s.record e).cid = (s'.record e).cid := (congrArg VM.cid (h.record e) :)

theorem ip (e : Nat) : (s.record e).ip = (s'.record e).ip := (congrArg VM.ip (h.record e) :)

theorem phase (p : Nat) : (s.procs p).phase = (s'.procs p).phase := (congrArg Process.phase (h.procs p) :)

theorem timedOut (p : Nat) : (s.procs p).timedOut = (s'.procs p).timedOut :=
  (congrArg Process.timedOut (h.procs p) :)

theorem handles (p : Nat) : (s.procs p).handles = (s'.procs p).handles := (congrArg Process.handles (h.procs p) :)

theorem usedCIDs : s.usedCIDs = s'.usedCIDs := by
  simp only [System.usedCIDs, h.vms, h.cid]

theorem freeCIDFrom (start : Nat) : s.freeCIDFrom start = s'.freeCIDFrom start := by
  simp only [System.freeCIDFrom, h.usedCIDs]

theorem lookupByIP (addr : Network.Addr) : s.lookupByIP addr = s'.lookupByIP addr := by
  simp only [System.lookupByIP, h.vms, h.ip, h.state]

end Read

theorem entry (h : s.Akin s') {x y : Entry} (hx : x.muted = y.muted) (e' : Nat) :
    (update s.entries e x e').muted = (update s'.entries e y e').muted := by
  simp only [update_apply]
  split
  · exact hx
  · exact h.entries e'

theorem process (h : s.Akin s') {x y : Process} (hx : x.muted = y.muted) (p' : Nat) :
    (update s.procs p x p').muted = (update s'.procs p y p').muted := by
  simp only [update_apply]
  split
  · exact hx
  · exact h.procs p'

theorem insert (h : s.Akin s') (id : String) (hr : r.muted = r'.muted) (id' : String) :
    (GoMap.get (s.disk.insert id r) id').map muted = (GoMap.get (s'.disk.insert id r') id').map muted := by
  simp only [get_insert]
  split
  · exact congrArg some hr
  · exact h.disk id'

theorem erase (h : s.Akin s') (id id' : String) :
    (GoMap.get (s.disk.erase id) id').map muted = (GoMap.get (s'.disk.erase id) id').map muted := by
  simp only [get_erase]
  split
  · rfl
  · exact h.disk id'

theorem update_muted (h : s.Akin s') (e : Nat) (u : Update) :
    ((s.record e).update s.clock u).muted = ((s'.record e).update s'.clock u).muted := by
  rw [muted_update, h.record e, h.clock, ← muted_update]

theorem updateRec (h : s.Akin s') (e : Nat) (u : Update) : (s.updateRec e u).Akin (s'.updateRec e u) := by
  have hr := h.update_muted e u
  have he : Entry.muted { s.entries e with
        record := (s.record e).update s.clock u, volume := (s.entries e).volume || u.opensVolume } =
      Entry.muted { s'.entries e with
        record := (s'.record e).update s'.clock u, volume := (s'.entries e).volume || u.opensVolume } := by
    simp only [Entry.muted, hr, h.userData, h.volume, h.proc]
  refine { h with
    entries := h.entry he
    disk := fun id => ?_ }
  simp only [System.updateRec, h.writable]
  split
  · rw [update_id, update_id, h.id]
    exact h.insert _ hr id
  · exact h.disk id

theorem addEntry (h : s.Akin s') (id : String) {x y : Entry} (hx : x.muted = y.muted) :
    (s.addEntry id x).Akin (s'.addEntry id y) := by
  refine { h with
    nextEntry := congrArg (· + 1) h.nextEntry
    vms := by simp only [System.addEntry, h.vms, h.nextEntry]
    entries := fun e' => ?_ }
  simp only [System.addEntry, h.nextEntry]
  exact h.entry hx e'

theorem addProc (h : s.Akin s') (t t' e : Nat) (phase : Phase) (hs : Processes) :
    (s.addProc t e phase hs).Akin (s'.addProc t' e phase hs) := by
  unfold System.addProc
  rw [h.nextProc]
  refine { h with
    procs := h.process rfl
    nextProc := rfl
    entries := h.entry (congrArg (fun x => { x with proc := some s'.nextProc }) (h.entries e)) }

theorem dropProc (h : s.Akin s') (e p : Nat) : (s.dropProc e p).Akin (s'.dropProc e p) := by
  refine { h with
    qemus := by simp only [System.dropProc, h.handles, h.qemus]
    entries := h.entry (congrArg (fun x => { x with proc := none }) (h.entries e)) }

theorem notifyOp (h : s.Akin s') {o : NotifyOp} (hv : (Op.notify o).unprivileged = false)
    (hf : (Op.notify o).Fits s) (hf' : (Op.notify o).Fits s') : (o.apply s.notify).Alike (o.apply s'.notify) := by
  cases o with
  | subscribe e cid => exact h.notify.subscribe e cid
  | unsubscribe why cid => exact h.notify.unsubscribe cid
  | deliver n => exact h.notify.deliver hf hf'
  | receive p n =>
    have hn : n.privileged = true := by simpa [Op.unprivileged] using hv
    exact (h.notify.front hn hn hf hf').2
  | hangUp p => exact h.notify.hangUp p

theorem effect (h : s.Akin s') (hv : o.unprivileged = false) (hf : o.Fits s) (hf' : o.Fits s') :
    (s.effect t o).Akin (s'.effect t' o) := by
  cases o with
  | lock e => exact { h with entries := h.entry (h.entries e) }
  | unlock e => exact { h with entries := h.entry (h.entries e) }
  | update e u =>
    have hu := h.updateRec e u
    exact { hu with }
  | allocate id machineID cid spec =>
    have hr : s.newVM id machineID cid spec = s'.newVM id machineID cid spec := by
      simp only [newVM, h.nextSerial, h.clock]
    have ha := h.addEntry id
      (x := { record := s.newVM id machineID cid spec, userData := spec.userData, owner := some t })
      (y := { record := s'.newVM id machineID cid spec, userData := spec.userData, owner := some t' })
      (by rw [hr]; rfl)
    exact { ha with
      nextSerial := congrArg (· + 1) h.nextSerial
      disk := h.insert id (congrArg muted hr) }
  | remove id => exact { h with vms := congrArg (AList.erase id) h.vms }
  | removeDir id | undoAllocate id =>
    exact { h with
      disk := h.erase id
      host := by simp only [System.effect, System.apply, h.host] }
  | setVolume e isOpen =>
    exact { h with entries := h.entry (congrArg (fun x => { x with volume := isOpen }) (h.entries e)) }
  | release e ks =>
    exact { h with
      entries := h.entry (congrArg (fun x => { x with volume := false }) (h.entries e))
      forwards := congrArg (fun f => f.take e) h.forwards }
  | host o => exact { h with host := congrArg (fun x => HostOp.apply x o) h.host }
  | net o =>
    exact { h with
      nets := congrArg (fun x => NetOp.onNets x o) h.nets
      imds := congrArg (fun x => NetOp.onServers x o) h.imds }
  | attest o =>
    exact { h with verifier := by simp only [System.effect, System.apply, h.verifier, h.clock] }
  | shutdown o =>
    cases o with
    | begins es => exact { h with closing := rfl }
    | _ => exact { h with }
  | notify o => exact { h with notify := h.notifyOp hv hf hf' }
  | forward o => exact { h with forwards := congrArg (fun x => ForwardOp.apply x o) h.forwards }
  | runtimeStart e phase cid q =>
    cases q with
    | none => exact { h with }
    | some q =>
      have hq : (s.effect t (.runtimeStart e phase cid (some q))).qemus =
          (s'.effect t' (.runtimeStart e phase cid (some q))).qemus := by
        simp only [System.effect, System.apply, h.qemus, h.id]
      cases phase with
      | install => exact { h with qemus := hq, nextQemu := rfl }
      | boot => exact { h with qemus := hq, nextQemu := rfl, notify := h.notify.startedFor e q }
  | track e phase hs =>
    have hu := (h.addProc t t' e phase hs).updateRec e (.started phase hs)
    refine { hu with notify := ?_ }
    simp only [System.effect, System.apply, h.nextProc]
    exact h.notify.readFor e s'.nextProc phase
  | reattach e phase hs =>
    have ha := h.addProc t t' e phase hs
    cases phase with
    | install => exact { ha with }
    | boot =>
      refine { ha with notify := ?_ }
      simp only [System.effect, System.apply, h.nextProc, if_true]
      exact (h.notify.startedFor e hs.qemu).readFor e s'.nextProc .boot
  | supervise p k => exact { h with procs := h.process (h.procs p) }
  | timedOut p => exact { h with procs := h.process (congrArg (fun x => { x with timedOut := true }) (h.procs p)) }
  | exited e p exit timeout c =>
    have hd := (h.dropProc e p).updateRec e (.exited (s.procs p).phase (s.procs p).timedOut exit timeout c)
    rw [System.effect, System.effect, System.apply, System.apply, ← h.phase, ← h.timedOut]
    exact { hd with }
  | closeDone p => exact { h with procs := h.process (congrArg (fun x => { x with done := true }) (h.procs p)) }
  | loadEntry id r =>
    have ha := h.addEntry id (x := { record := r.loaded, userData := (s.host.userDataFiles.get id).getD [] })
      (y := { record := r.loaded, userData := (s'.host.userDataFiles.get id).getD [] }) (by rw [h.host])
    exact { ha with }
  | _ => exact { h with }

theorem effect_like (h : s.Akin s') (ho : o.Like o') (hf : o.Fits s) (hf' : o'.Fits s') :
    (s.effect t o).Akin (s'.effect t' o') := by
  cases ho with
  | same hv => exact h.effect hv hf hf'
  | @loads id r r' hr =>
    have hloaded : r.loaded.muted = r'.loaded.muted := by
      rw [muted_loaded, hr, ← muted_loaded]
    have ha := h.addEntry id (x := { record := r.loaded, userData := (s.host.userDataFiles.get id).getD [] })
      (y := { record := r'.loaded, userData := (s'.host.userDataFiles.get id).getD [] }) (by
        simp only [Entry.muted, hloaded, h.host])
    exact { ha with }
  | supervises p k k' => exact { h with procs := h.process (h.procs p) }
  | stopEnds e w w' => exact { h with }

theorem notified_hidden (h : s.Akin s') {c : Console} (hready : n.ready = false)
    (hdisk : s.writable = true → (s.disk.get (s.record e).id).map muted = some (s.record e).muted) :
    (s.effect t (.update e (.notified n c))).Akin s' := by
  have hr := (s.record e).muted_notified s.clock hready c
  refine { h with disk := fun id => ?_, entries := fun e' => ?_ }
  · rw [← h.disk id]
    simp only [System.effect, System.apply, System.updateRec, Update.saves, Bool.true_and]
    rw [update_id]
    split
    · rename_i hw
      rw [get_insert]
      split
      · rename_i heq
        rw [heq, hdisk hw]
        exact congrArg some hr
      · rfl
    · rfl
  · rw [← h.entries e']
    simp only [System.effect, System.apply, System.updateRec, update_apply]
    split
    · rename_i heq
      subst heq
      simp only [Entry.muted, hr, Update.opensVolume, Bool.or_false]
      rfl
    · rfl

theorem hidden (h : s.Akin s') (ho : o.unprivileged = true) (hf : ∀ p n, o = .notify (.receive p n) → o.Fits s)
    (hupd : ∀ e n c, o = .update e (.notified n c) → n.ready = false ∧ (s.writable = true →
      (s.disk.get (s.record e).id).map muted = some (s.record e).muted)) : (s.effect t o).Akin s' := by
  unfold Op.unprivileged at ho
  split at ho
  · rename_i n
    exact { h with notify := h.notify.deliver_hidden (by simpa using ho) }
  · rename_i p n
    exact { h with notify := h.notify.receive_hidden (by simpa using ho) (hf p n rfl) }
  · rename_i e n c
    exact h.notified_hidden (hupd e n c rfl).1 (hupd e n c rfl).2
  · cases ho

theorem outside (h : s.Akin s') {n n' : Nat} (hz : s.outside n x = some z)
    (hz' : s'.outside n' x = some z') : z.Akin z' := by
  cases x with
  | exit q status =>
    simp only [System.outside, ite_none_right_eq_some, some.injEq] at hz hz'
    obtain ⟨-, rfl⟩ := hz
    obtain ⟨-, rfl⟩ := hz'
    exact { h with qemus := by rw [h.qemus] }
  | message q port status ready =>
    simp only [System.outside, ite_none_right_eq_some, some.injEq] at hz hz'
    exact hz.2 ▸ hz'.2 ▸ h
  | tick d =>
    cases hz
    cases hz'
    exact { h with clock := congrArg (· + d) h.clock }
  | disk writable =>
    cases hz
    cases hz'
    exact { h with writable := rfl }
  | crash =>
    simp only [System.outside, ite_none_right_eq_some, some.injEq] at hz hz'
    obtain ⟨-, rfl⟩ := hz
    obtain ⟨-, rfl⟩ := hz'
    exact { h with
      closing := rfl, entries := fun _ => rfl, vms := rfl, procs := fun _ => rfl, nets := rfl, imds := rfl
      notify := ⟨rfl, rfl, rfl, rfl, fun _ => rfl⟩, verifier := rfl, forwards := rfl }
  | start =>
    simp only [System.outside, ite_none_left_eq_some, some.injEq] at hz hz'
    obtain ⟨-, rfl⟩ := hz
    obtain ⟨-, rfl⟩ := hz'
    exact { h with }

end System.Akin

end VmManager.Vm
