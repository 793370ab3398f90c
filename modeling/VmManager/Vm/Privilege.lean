import VmManager.Interleaving.Unwinding
import VmManager.Vm.Blind

/-! Notifications from unprivileged ports. The source keeps the port a message came from, and nothing reads
it: READY=1 from any port makes a VM ready, and any message takes a place in the channel of its VM. As long
as no message from an unprivileged port says READY=1 and every other message finds a place, what a record
says of its VM's state is the same with those messages and without them: in two runs with the same calls,
the same outside events and the same moves of the goroutines in the same order. -/
namespace VmManager.Vm
open Encoding Attest Interleaving List Option Function Vm.System
variable {cfg : Config} {s s' : System} {t e p c : Nat} {op : Op} {n : Notification} {x : Outside}
  {ev : Event} {pool pool' : Pool} {tr tr' : Trace System Answer Call Op Outside}

/-- The arrival of a message from an unprivileged port, and what the service does with it. -/
def unprivileged : Event → Bool
  | .op _ o => o.unprivileged
  | .call _ => false
  | .env (.message _ port _ _) => privilegedPorts ≤ port
  | .env _ => false

def Notification.Harmless (n : Notification) : Prop := n.privileged = false → n.ready = false

structure Readiness where
  state : State
  booted : Bool
  readyAt : Option Nat
  lastError : String
deriving DecidableEq, Repr

def VM.readiness (r : VM) : Readiness := ⟨r.state, r.booted, r.readyAt, r.lastError⟩

/-- No guest says READY=1 from an unprivileged port, a message from a privileged one never meets a full
channel, and where a message from an unprivileged port is handled, vm.json has the record as it is, but for
the status, or takes no write. -/
def Confined (s : System) : Event → Prop
  | .env (.message _ port _ ready) => privilegedPorts ≤ port → ready = false
  | .op _ (.notify (.deliver n)) => n.privileged = true →
    ∀ ch, s.notify.subs.get n.cid = some ch → (s.notify.chans ch).queue.length < notifyBuffer
  | .op _ (.update e (.notified n _)) => n.privileged = false → s.writable = true →
    (s.disk.get (s.record e).id).map VM.muted = some (s.record e).muted
  | _ => True

namespace Listener

theorem queue_modify (l : Listener) (ch : Nat) {f : Channel → Channel} (hf : ∀ c, (f c).queue = c.queue)
    (c : Nat) : ((l.modify ch f).chans c).queue = (l.chans c).queue := by
  rw [l.chans_modify]
  split
  · rename_i heq
    rw [hf, heq]
  · rfl

theorem queue_startedFor (l : Listener) (e q c : Nat) :
    ((l.startedFor e q).chans c).queue = (l.chans c).queue := by
  unfold startedFor
  split
  · exact l.queue_modify _ (f := fun c => { c with qemu := some q }) (fun _ => rfl) c
  · rfl

theorem queue_readFor (l : Listener) (e p : Nat) (phase : Phase)
    (h : n ∈ ((l.readFor e p phase).chans c).queue) : n ∈ (l.chans c).queue := by
  cases phase with
  | install => exact h
  | boot => exact (l.passes_handOver e).queue c n h

theorem queue_apply (l : Listener) {o : NotifyOp}
    (h : n ∈ ((o.apply l).chans c).queue) : n ∈ (l.chans c).queue ∨ o = .deliver n := by
  cases o with
  | subscribe e cid =>
    simp only [NotifyOp.apply, subscribe] at h
    split at h
    · exact .inl h
    · simp only [update_apply] at h
      split at h
      · cases h
      · exact .inl h
  | unsubscribe why cid => exact .inl ((l.passes_unsubscribe cid).queue c n h)
  | deliver m =>
    rcases (l.deliver_queue m c).2 n h with hold | ⟨rfl, -⟩
    · exact .inl hold
    · exact .inr rfl
  | receive p m => exact .inl ((l.passes_receive p).queue c n h)
  | hangUp p => exact .inl h

end Listener

theorem System.queue_effect (h : n ∈ ((s.effect t op).notify.chans c).queue) :
    n ∈ (s.notify.chans c).queue ∨ op = .notify (.deliver n) := by
  cases op with
  | notify o =>
    rcases s.notify.queue_apply h with hold | rfl
    · exact .inl hold
    · exact .inr rfl
  | runtimeStart e phase cid q =>
    cases q with
    | none => exact .inl h
    | some q =>
      cases phase with
      | install => exact .inl h
      | boot =>
        have hq : ((s.effect t (.runtimeStart e .boot cid (some q))).notify.chans c).queue =
          (s.notify.chans c).queue := s.notify.queue_startedFor e q c
        exact .inl (hq ▸ h)
  | track e phase hs => exact .inl (s.notify.queue_readFor e s.nextProc phase h)
  | reattach e phase hs =>
    cases phase with
    | install => exact .inl h
    | boot =>
      have hmem := (s.notify.startedFor e hs.qemu).queue_readFor e s.nextProc .boot h
      rw [s.notify.queue_startedFor] at hmem
      exact .inl hmem
  | _ => exact .inl h

structure Confining (s : System) : Prop where
  sent : ∀ n, s.Sent n → n.Harmless
  queued : ∀ ch, ∀ n ∈ (s.notify.chans ch).queue, n.Harmless
  received : ∀ t p n l, s.acts t = .notify (.receive p n) :: l → n.Harmless

namespace Confining

theorem start : Confining {} where
  sent n hn := by cases hn
  queued ch n hn := by cases hn
  received t p n l h := by cases h

theorem front (h : Confining s) (hn : s.notify.front p = some n) : n.Harmless := by
  rw [Listener.front, bind_eq_some_iff] at hn
  obtain ⟨ch, -, hhead⟩ := hn
  exact h.queued ch n (mem_of_head? hhead)

theorem effect (h : Confining s) (hg : op.Guard cfg s t) : Confining (s.effect t op) where
  sent n hn := h.sent n ((mem_cons.1 hn).resolve_left nofun)
  queued ch n hn := by
    rcases queue_effect hn with hold | rfl
    · exact h.queued ch n hold
    · exact h.sent n hg
  received t' p n l hacts := by
    rw [s.acts_effect] at hacts
    split at hacts
    · obtain ⟨rfl, -⟩ := cons.inj hacts
      exact h.front hg.1
    · exact h.received t' p n l hacts

theorem outside (h : Confining s) {k : Nat} (hk : Confined s (.env x))
    (hx : s.outside k x = some s') : Confining (s'.noting x s) := by
  have hsent : ∀ n, Sent (s'.noting x s) n → n.Harmless := by
    intro n hn
    rcases mem_cons.1 hn with hnew | hold
    · injection hnew with hnew
      subst hnew
      intro hpriv
      refine hk ?_
      simpa [Notification.privileged] using hpriv
    · exact h.sent n hold
  rcases outside_split hx with _ | _
  · exact ⟨hsent, fun ch n hn => (by cases hn), h.received⟩
  · exact ⟨hsent, h.queued, h.received⟩

theorem handled (h : Confining s) {c : Console} (hg : (Op.update e (.notified n c)).Guard cfg s t) :
    n.Harmless := by
  obtain ⟨-, p, -, -, l, hacts⟩ := hg
  exact h.received t p n l hacts

end Confining

theorem Runs.confining (h : Runs cfg Confined pool) : Confining pool.shared :=
  Runs.invariant (I := Confining) .start (fun _ _ _ _ hI hg _ => hI.effect hg)
    (fun _ _ _ _ _ hI hk hx => hI.outside hk hx) h

theorem Confined.fits (hg : op.Guard cfg s t) (hk : Confined s (.op t op)) (ho : op.unprivileged = false) :
    op.Fits s := by
  unfold Op.Fits
  split
  · refine hk ?_
    simpa [Op.unprivileged] using ho
  · exact hg.1
  · trivial

theorem akin_unprivileged (h : s.Akin s') (hc : Confining s) (hg : op.Guard cfg s t) (hk : Confined s (.op t op))
    (ho : op.unprivileged = true) : (s.effect t op).Akin s' := by
  refine h.hidden ho ?_ ?_
  · rintro p n rfl
    exact hg.1
  · rintro e n c rfl
    have hn : n.privileged = false := by simpa [Op.unprivileged] using ho
    exact ⟨hc.handled hg hn, hk hn⟩

theorem Runs.guard {K : System → Event → Prop} {pr rest : Program} {i : Answer} {l : List Call}
    (h : Runs cfg K pool) (hpr : pool.threads[t]? = some pr)
    (hres : (service cfg).resume t pool.threads.length i pool.shared pr = some (op, rest, l)) :
    op.Guard cfg pool.shared t := by
  have hm : (service cfg).step pool (.go t i) = some (.op t op,
      ⟨pool.shared.effect t op, pool.threads.set t rest ++ l.map (body cfg)⟩) := by
    rw [Machine.step, hpr]
    simp only [bind_eq_bind, bind_some, hres]
    rfl
  exact (h.step hm).of_op.1

theorem alike_starts (h : s.Akin s') (hx : unprivileged (.env x) = false) :
    Forall₂ Call.Like (x.starts s) (x.starts s') := by
  cases x with
  | message q port status ready =>
    rw [Outside.starts, Outside.starts, h.qemus]
    refine .cons (.same fun n hn => ?_) .nil
    cases hn
    simpa [unprivileged, Notification.privileged] using hx
  | start => exact .cons (.same fun n hn => by cases hn) .nil
  | _ => exact .nil

theorem unwinding (cfg : Config) :
    Machine.Unwinding (service cfg) Confined unprivileged {} Akin (Kin cfg) where
  start := .refl _
  done := .of_alike .done
  symm _ _ h := h.symm
  symmProg _ _ h := h.symm
  hiddenStep := by
    intro p m ev q s' hrun hm hk hev h
    have hc := Runs.confining hrun
    have hstep := Runs.step hrun hm
    generalize q.shared = z at hstep ⊢
    cases hstep with
    | op hg => exact akin_unprivileged h hc hg hk hev
    | call => cases hev
    | @env x n z hx =>
      cases x with
      | message k port status ready =>
        simp only [System.outside, ite_none_right_eq_some, some.injEq] at hx
        obtain ⟨-, rfl⟩ := hx
        exact { h with }
      | _ => cases hev
  hiddenGo hres hev h := h.hidden hres hev
  hiddenEnv := by
    intro x hx
    cases x <;> first | rfl | cases hx
  go := by
    intro p p' t t' i pr pr' o o' rest rest' l l' hrun hrun' h hpr hpr' hkin hres hres' hk hk' hev hev'
    obtain ⟨hlike, hrest, hnew⟩ := hkin.seen h hres hres' hev hev'
    have hg := Runs.guard hrun hpr hres
    have hg' := Runs.guard hrun' hpr' hres'
    exact ⟨h.effect_like hlike (Confined.fits hg hk hev) (Confined.fits hg' hk' hev'), hrest, hnew⟩
  call := by
    intro c s hacc
    refine .of_alike (alike_body (.same ?_))
    rintro n rfl
    cases hacc
  env := by
    intro x n n' s s' z z' l l' h hz hz' hev
    obtain ⟨y, hy, hpair⟩ := map_eq_some_iff.1 hz
    obtain ⟨y', hy', hpair'⟩ := map_eq_some_iff.1 hz'
    cases hpair
    cases hpair'
    refine ⟨{ h.outside hy hy' with }, ?_⟩
    rw [forall₂_map_left_iff, forall₂_map_right_iff]
    exact (alike_starts h hev).imp fun _ _ hc => .of_alike (alike_body hc)

/-- For every two runs whose moves all meet `Confined` and that are the same move for move when the
notifications from unprivileged ports are left out: what the record of every entry said of the state of its
VM was the same, one value after the other. -/
theorem readiness_privileged (cfg : Config) {P : List (Nat × Nat)}
    (h : (service cfg).Twins Confined unprivileged {} tr tr' P) (e : Nat) :
    tr.observed (fun s => (s.record e).readiness) {} = tr'.observed (fun s => (s.record e).readiness) {} :=
  ((unwinding cfg).agree (fun _ _ h => congrArg VM.readiness (h.record e)) h).observed

instance : ∀ ev, Decidable (Confined s ev)
  | .op .. | .env _ => by delta Confined; split <;> infer_instance
  | .call _ => .isTrue trivial

namespace Sample

def common : Move → Machine.TwinMove Answer Call Outside
  | .go t i => .go t t i
  | .call c => .call c
  | .env x => .env x

/-- In one of two runs that begin with the first boot of a VM, the guest of QEMU 1 sends a message from an
unprivileged port, and its supervisor handles it. -/
def sends (status : String) (ready : Bool) : List (Machine.TwinMove Answer Call Outside) :=
  attestedBoot.map common ++
    [.left (.env (.message 1 40000 status ready)), .left (.go 5 .ok), .left (.go 4 (.notify {})), .left (.go 4 .ok)]

theorem twins {K : System → Event → Prop} [∀ s ev, Decidable (K s ev)]
    (ms : List (Machine.TwinMove Answer Call Outside)) {P : System → System → Prop} [DecidableRel P]
    (h : (Machine.execTwins (fun s ev => decide (K s ev)) Vm.unprivileged (service config) ms
      ⟨⟨{}, []⟩, ⟨{}, []⟩, []⟩).any (fun x => P x.pool.shared x.pool'.shared) = true) :
    ∃ tr tr' R, (service config).Twins K Vm.unprivileged {} tr tr' R ∧ P (tr.pool {}).shared (tr'.pool {}).shared := by
  obtain ⟨x, hx, hP⟩ := (Option.any_eq_true _ _).1 h
  obtain ⟨tr, tr', htw, hp, hp'⟩ :=
    Machine.Twinned.exec (fun _ _ h => of_decide_eq_true h) ⟨[], [], .start, rfl, rfl⟩ hx
  refine ⟨tr, tr', x.pairs, htw, ?_⟩
  rw [hp, hp']
  simpa using hP

end Sample
open Sample

theorem readiness_privileged_status : ∃ tr tr' R,
    (service config).Twins Confined unprivileged {} tr tr' R ∧
      ((tr.pool {}).shared.record 0).status = "ok" ∧ ((tr'.pool {}).shared.record 0).status = "" ∧
      ((tr'.pool {}).shared.record 0).state = .ready ∧
      tr.observed (fun s => (s.record 0).readiness) {} = tr'.observed (fun s => (s.record 0).readiness) {} := by
  obtain ⟨tr, tr', R, htw, hstatus, hnone, hready⟩ := twins (K := Confined)
    (P := fun s s' => (s.record 0).status = "ok" ∧ (s'.record 0).status = "" ∧ (s'.record 0).state = .ready)
    (sends "ok" false ++ [.env (.message 1 700 "" true), .go 6 5 .ok, .go 4 4 (.notify {}), .go 4 4 .ok])
    (by decide +kernel)
  exact ⟨tr, tr', R, htw, hstatus, hnone, hready, readiness_privileged config htw 0⟩

theorem ready_unprivileged : ∃ tr tr' R,
    (service config).Twins (fun _ _ => True) unprivileged {} tr tr' R ∧
      ((tr.pool {}).shared.record 0).state = .ready ∧ ((tr'.pool {}).shared.record 0).state = .booting ∧
      tr.observed (fun s => (s.record 0).readiness) {} ≠ tr'.observed (fun s => (s.record 0).readiness) {} := by
  obtain ⟨tr, tr', R, htw, hready, hbooting⟩ := twins (K := fun _ _ => True)
    (P := fun s s' => (s.record 0).state = .ready ∧ (s'.record 0).state = .booting)
    (sends "" true) (by decide +kernel)
  refine ⟨tr, tr', R, htw, hready, hbooting, fun heq => ?_⟩
  have hhead := congrArg head? heq
  rw [Trace.head_observed, Trace.head_observed] at hhead
  have hstate := congrArg Readiness.state (some.inj hhead)
  rw [VM.readiness, VM.readiness, hready, hbooting] at hstate
  cases hstate

end VmManager.Vm
