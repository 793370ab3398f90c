import Mathlib.Data.List.Forall2
import VmManager.Vm.Muted

/-! No program of the service looks at what messages from unprivileged ports change. Where two states differ
in that only, the same step of a program performs the same operation and goes on in the same way; and a
supervisor that has read and handled such a message is where it was before. -/
namespace VmManager.Vm
open Encoding Attest Interleaving List Option
variable {cfg : Config} {s s' : System} {α β : Type} {e p n cid : Nat} {id : String} {phase : Phase}
  {name vmID err : String} {tpm : Nat} {source : Network.Addr} {req : QuoteRequest} {es : List Nat}
  {h : Processes} {spec : Spec} {c : Console} {res : Result} {states : List Network.State}

/-- The same call, not for a message from an unprivileged port; the number of a Close may be another. -/
inductive Call.Like : Call → Call → Prop where
  | same {c : Call} (h : ∀ n, c = .deliver n → n.privileged = true) : Like c c
  | closeStop (e w w' : Nat) : Like (.closeStop e w) (.closeStop e w')

def handling (e p : Nat) (due : Bool) (n : Notification) (c : Console) : Program :=
  (do perform (.update e (.notified n c)); Proc.goto (.run e p due) : Go Unit).toProg

/-- The first program gets to the second by steps for messages from unprivileged ports. -/
inductive Rejoins (cfg : Config) : Program → Program → Prop where
  | refl (pr : Program) : Rejoins cfg pr pr
  | jump (c : Call) : Rejoins cfg (.jump c) (body cfg c)
  | handling {e p : Nat} {due : Bool} {n : Notification} {c : Console} (h : n.privileged = false) :
      Rejoins cfg (handling e p due n c) (body cfg (.run e p due))

/-- In states that are akin the programs perform like operations, but for those for messages from
unprivileged ports, after which they are where they were. -/
inductive Alike (cfg : Config) : Program → Program → Prop where
  | done : Alike cfg .done .done
  | jump {c c' : Call} (h : c.Like c') : Alike cfg (.jump c) (.jump c')
  | act {f f' : Nat → Nat → Answer → System → Option (Op × Program × List Call)}
      (hidden : ∀ {t n i s r}, f t n i s = some r → r.1.unprivileged = true → Rejoins cfg r.2.1 (.act f))
      (hidden' : ∀ {t n i s r}, f' t n i s = some r → r.1.unprivileged = true → Rejoins cfg r.2.1 (.act f'))
      (seen : ∀ {t t' n n' i s s' r r'}, s.Akin s' → f t n i s = some r → f' t' n' i s' = some r' →
        r.1.unprivileged = false → r'.1.unprivileged = false → r.1.Like r'.1 ∧ Forall₂ Call.Like r.2.2 r'.2.2)
      (rest : ∀ {t t' n n' i s s' r r'}, s.Akin s' → f t n i s = some r → f' t' n' i s' = some r' →
        r.1.unprivileged = false → r'.1.unprivileged = false → Alike cfg r.2.1 r'.2.1) :
      Alike cfg (.act f) (.act f')

/-- The code is alike whatever comes after it. -/
def Blind (cfg : Config) (x : Go α) : Prop :=
  ∀ k k' : α → Program, (∀ a, Alike cfg (k a) (k' a)) → Alike cfg (x k) (x k')

namespace Blind

theorem pure {a : α} : Blind cfg (Pure.pure a) := fun _ _ hk => hk a

theorem bind {x : Go α} {f : α → Go β} (hx : Blind cfg x) (hf : ∀ a, Blind cfg (f a)) :
    Blind cfg (x >>= f) := fun k k' hk => hx _ _ fun a => hf a k k' hk

theorem goto {c : Call} (h : ∀ n, c = .deliver n → n.privileged = true) :
    Blind cfg (Proc.goto c : Go α) := fun _ _ _ => .jump (.same h)

theorem ite {q : Prop} [Decidable q] {x y : Go α} (hx : Blind cfg x) (hy : Blind cfg y) :
    Blind cfg (if q then x else y) := by
  split
  · exact hx
  · exact hy

theorem spawn {f : Nat → Nat → Answer → System → Option (Op × α × List Call)}
    (h : ∀ {t t' n n' i s s' r r'}, s.Akin s' → f t n i s = some r → f t' n' i s' = some r' →
      r.1.Like r'.1 ∧ r.2.1 = r'.2.1 ∧ Forall₂ Call.Like r.2.2 r'.2.2) : Blind cfg (Proc.spawn f) := by
  intro k k' hk
  have hvisible : ∀ {t n i s r}, f t n i s = some r → r.1.unprivileged = false :=
    fun hf => (h (.refl _) hf hf).1.visible
  have hhidden : ∀ {k : α → Program} {t n i s r},
      ((f t n i s).map fun r => (r.1, k r.2.1, r.2.2)) = some r → r.1.unprivileged = true →
      Rejoins cfg r.2.1 (Proc.spawn f k) := by
    intro k t n i s r hf hr
    obtain ⟨x, hx, rfl⟩ := map_eq_some_iff.1 hf
    cases (hvisible hx).symm.trans hr
  refine .act hhidden hhidden (fun hs hf hf' _ _ => ?_) fun hs hf hf' _ _ => ?_
  all_goals
    obtain ⟨x, hx, rfl⟩ := map_eq_some_iff.1 hf
    obtain ⟨x', hx', rfl⟩ := map_eq_some_iff.1 hf'
    obtain ⟨hop, hval, hcalls⟩ := h hs hx hx'
  · exact ⟨hop, hcalls⟩
  · simp only [hval]
    exact hk x'.2.1

theorem step {f : Nat → Answer → System → Option (Op × α)}
    (h : ∀ {t t' i s s' r r'}, s.Akin s' → f t i s = some r → f t' i s' = some r' →
      r.1.Like r'.1 ∧ r.2 = r'.2) : Blind cfg (Proc.step f) := by
  refine spawn fun hs hf hf' => ?_
  obtain ⟨x, hx, rfl⟩ := map_eq_some_iff.1 hf
  obtain ⟨x', hx', rfl⟩ := map_eq_some_iff.1 hf'
  exact ⟨(h hs hx hx').1, (h hs hx hx').2, .nil⟩

theorem stepSome {f : Nat → Answer → System → Option (Op × α)}
    (heq : ∀ {t t' i s s' r r'}, s.Akin s' → f t i s = some r → f t' i s' = some r' → r = r')
    (hvis : ∀ {t i s r}, f t i s = some r → r.1.unprivileged = false) : Blind cfg (Proc.step f) := by
  refine step fun hs hf hf' => ?_
  obtain rfl := heq hs hf hf'
  exact ⟨.same (hvis hf), rfl⟩

theorem stepEq {f : Nat → Answer → System → Option (Op × α)}
    (heq : ∀ {t t' i s s'}, s.Akin s' → f t i s = f t' i s')
    (hvis : ∀ {t i s r}, f t i s = some r → r.1.unprivileged = false) : Blind cfg (Proc.step f) :=
  stepSome (fun hs hf hf' => some.inj (hf.symm.trans ((heq hs).trans hf'))) hvis

theorem look {g : System → α} (h : ∀ {s s'}, s.Akin s' → g s = g s') : Blind cfg (look g) :=
  stepEq (fun hs => by rw [h hs]) (by grind)

theorem lookMuted {g : System → α} (π : α → α) {k : α → Go β} (hg : ∀ {s s'}, s.Akin s' → π (g s) = π (g s'))
    (hk : ∀ a, k (π a) = k a) (h : ∀ a, Blind cfg (k a)) : Blind cfg (Vm.look g >>= k) := by
  have hfactor : (Vm.look g >>= k) = (Vm.look (fun s => π (g s)) >>= k) := by
    funext K
    change Prog.act _ = Prog.act _
    congr 1
    funext t n i s
    simp only [map_some, hk]
  rw [hfactor]
  exact (look hg).bind h

theorem perform {op : Op} (h : op.unprivileged = false) : Blind cfg (perform op) :=
  stepEq (fun _ => rfl) fun hf => by cases hf; exact h

theorem manager {g : System → α} (h : ∀ {s s'}, s.Akin s' → g s = g s') : Blind cfg (withManager g) :=
  stepSome (fun hs => by grind [h hs]) (by grind)

theorem bindE {x : GoE α} {f : α → GoE β} (hx : Blind cfg x.run) (hf : ∀ a, Blind cfg (f a).run) :
    Blind cfg (x >>= f).run := by
  have hbind : Blind cfg (x.run >>= ExceptT.bindCont f) := by
    refine hx.bind fun r => ?_
    cases r with
    | ok a => exact hf a
    | error err => exact pure
  exact hbind

theorem pureE {a : α} : Blind cfg (Pure.pure a : GoE α).run := fun _ _ hk => hk (.ok a)

theorem throwE {err : String} : Blind cfg (throw err : GoE α).run := fun _ _ hk => hk (.error err)

theorem liftE {x : Go α} (hx : Blind cfg x) : Blind cfg (ExceptT.lift x : GoE α).run :=
  fun k k' hk => hx (fun a => k (.ok a)) (fun a => k' (.ok a)) fun a => hk (.ok a)

theorem iteE {q : Prop} [Decidable q] {x y : GoE α} (hx : Blind cfg x.run) (hy : Blind cfg y.run) :
    Blind cfg (if q then x else y).run := by
  split
  · exact hx
  · exact hy

theorem toProg {x : Go Unit} (h : Blind cfg x) : Alike cfg x.toProg x.toProg := h _ _ fun _ => .done

end Blind

theorem blind_record {k : VM → Go α} (hk : ∀ r, k r.muted = k r) (h : ∀ r, Blind cfg (k r)) :
    Blind cfg (record e >>= k) := .lookMuted VM.muted (fun hs => hs.record e) hk h

theorem blind_recordE {k : VM → GoE α} (hk : ∀ r, k r.muted = k r) (h : ∀ r, Blind cfg (k r).run) :
    Blind cfg (ExceptT.lift (record e) >>= k).run :=
  blind_record (k := fun r => (k r).run) (fun r => congrArg ExceptT.run (hk r)) h

section Lifecycle

theorem blind_lock : Blind cfg (lock e) := .stepSome (by grind) (by grind)

theorem blind_unlock : Blind cfg (unlock e) := .perform rfl

theorem blind_lookupEntry : Blind cfg (lookupEntry id).run :=
  .look fun hs => by rw [hs.vms]

theorem blind_getNetwork : Blind cfg (getNetwork name).run :=
  .manager fun hs => by rw [hs.nets]

theorem blind_persistNetworks : Blind cfg persistNetworks.run :=
  .bind (.manager fun hs => by rw [hs.nets]) fun _ => .stepEq (fun hs => by rw [hs.writable]) (by grind)

theorem blind_attachNetwork : Blind cfg (attachNetwork e n id).run :=
  .stepEq (fun hs => by rw [hs.nets]) (by grind)

theorem blind_createVolume : Blind cfg (createVolume id).run :=
  .stepEq (fun hs => by rw [hs.host]) (by grind)

theorem blind_acquireVolume : Blind cfg (acquireVolume id).run :=
  .stepEq (fun hs => by rw [hs.host]) (by grind)

theorem blind_startTPM : Blind cfg (startTPM id).run :=
  .stepEq (fun hs => by rw [hs.host]) (by grind)

theorem blind_stopTPM {tpm : Option Nat} : Blind cfg (stopTPM tpm) := by
  cases tpm with
  | none => exact .pure
  | some tpm => exact .perform rfl

theorem blind_runtimeStart : Blind cfg (runtimeStart e phase cid) :=
  .stepEq (fun hs => by rw [hs.nextQemu]) (by grind)

theorem blind_reassignCID {prev : Nat} : Blind cfg (reassignCID e prev) :=
  .stepEq (fun hs => by rw [hs.freeCIDFrom, hs.writable]) (by grind)

theorem blind_abandonStart :
    Blind cfg (abandonStart e phase tpm cid) :=
  .bind blind_stopTPM fun _ => .ite (.perform rfl) .pure

theorem blind_startFailed :
    Blind cfg (startFailed e phase tpm cid err).run :=
  .bindE (.liftE blind_abandonStart) fun _ => .throwE

theorem blind_nextCID :
    Blind cfg (nextCID e phase tpm cid err).run := by
  refine .bindE (.liftE blind_reassignCID) fun r => ?_
  cases r with
  | error rerr => exact .bindE (.liftE blind_abandonStart) fun _ => .throwE
  | ok next =>
    exact .iteE (.bindE (.liftE (.perform rfl)) fun _ => .bindE (.liftE (.perform rfl)) fun _ => .pureE) .pureE

theorem blind_startQemu {retries : Nat} :
    Blind cfg (startQemu e phase tpm retries cid).run := by
  induction retries generalizing cid with
  | zero =>
    refine .bindE (.liftE blind_runtimeStart) fun r => ?_
    cases r with
    | ok q => exact .pureE
    | error err => exact blind_startFailed
  | succ retries ih =>
    refine .bindE (.liftE blind_runtimeStart) fun r => ?_
    cases r with
    | ok q => exact .pureE
    | error err =>
      exact .iteE (.bindE blind_nextCID fun _ => ih)
        blind_startFailed

theorem blind_subscribe : Blind cfg (subscribe e phase cid) :=
  .ite (.perform rfl) .pure

theorem blind_startProcess : Blind cfg (startProcess e phase).run :=
  blind_recordE (fun _ => rfl) fun _ => .bindE blind_getNetwork fun _ =>
    .bindE blind_attachNetwork fun _ => .bindE blind_startTPM fun _ =>
      .bindE (.liftE blind_subscribe) fun _ => blind_startQemu

theorem blind_track : Blind cfg (track e phase h) :=
  .stepEq (fun hs => by rw [hs.nextProc]) (by grind)

theorem blind_supervise : Blind cfg (supervise e p) := by
  refine .spawn fun _ hf hf' => ?_
  cases hf
  cases hf'
  exact ⟨.supervises .., rfl, .cons (.same (by simp)) .nil⟩

theorem blind_detachNetwork : Blind cfg (detachNetwork e name id) := by
  refine .bind (.manager fun hs => by rw [hs.nets]) fun n => ?_
  cases n with
  | none => exact .pure
  | some n => exact .perform rfl

theorem blind_deleteVolume : Blind cfg (deleteVolume id) :=
  .stepEq (fun _ => rfl) (by grind)

theorem blind_removeDir : Blind cfg (removeDir id) :=
  .stepEq (fun _ => rfl) (by grind)

theorem blind_closeForwards {ks : List Nat} : Blind cfg (closeForwards ks) := by
  induction ks with
  | nil => exact .pure
  | cons k ks ih => exact .bind (.perform rfl) fun _ => ih

theorem blind_teardown : Blind cfg (teardown e) :=
  blind_record (fun _ => rfl) fun _ =>
    .bind (.stepEq (fun hs => by rw [hs.forwards]) (by grind)) fun ks =>
      .bind blind_closeForwards fun _ => .bind blind_detachNetwork fun _ =>
        .bind blind_deleteVolume fun _ => blind_removeDir

theorem blind_discard : Blind cfg (discard e) :=
  blind_record (fun _ => rfl) fun _ => .bind blind_teardown fun _ => .bind (.perform rfl) fun _ =>
    .bind blind_persistNetworks fun _ => .pure

theorem blind_writeUserData : Blind cfg (writeUserData e).run :=
  .stepEq (fun hs => by rw [hs.userData, hs.id]) (by grind)

theorem blind_generateSSHKey : Blind cfg (generateSSHKey id).run :=
  .stepEq (fun _ => rfl) (by grind)

theorem blind_copyVars : Blind cfg (copyVars id).run :=
  .stepEq (fun _ => rfl) (by grind)

theorem blind_provision : Blind cfg (provision e n).run :=
  blind_recordE (fun _ => rfl) fun _ => .bindE blind_generateSSHKey fun _ =>
    .bindE blind_writeUserData fun _ => .bindE blind_copyVars fun _ =>
      .bindE blind_createVolume fun _ => .bindE (.liftE (.perform rfl)) fun _ =>
        .bindE blind_attachNetwork fun _ => .bindE (.liftE (.perform rfl)) fun _ => blind_persistNetworks

theorem blind_launch : Blind cfg (launch e n).run := by
  refine .bind blind_lock fun _ =>
    .bind (.bindE blind_provision fun _ => blind_startProcess) fun r => ?_
  cases r with
  | error err => exact .bind blind_discard fun _ => .bind blind_unlock fun _ => .pure
  | ok h =>
    exact .bind blind_track fun p => .bind blind_supervise fun _ =>
      .bind blind_unlock fun _ => .pure

theorem blind_allocate : Blind cfg (allocate cfg spec).run :=
  .stepEq (fun hs => by
    simp only [hs.closing, hs.vms, hs.spec, hs.id, hs.writable, hs.freeCIDFrom, hs.nextEntry]) (by grind)

theorem blind_create : Blind cfg (create cfg spec).run :=
  .bindE .pure fun _ => .bindE .pure fun _ => .bindE blind_getNetwork fun _ =>
    .bindE blind_allocate fun _ => .bindE blind_launch fun _ => .liftE (.goto (by simp))

theorem blind_waitFor {w : WaitFor} : Blind cfg (waitFor e w) :=
  blind_record (fun _ => rfl) fun _ => .ite (.perform rfl) (.bind (.stepEq (fun _ => rfl) (by grind)) fun _ =>
    .ite (.goto (by simp)) (.perform rfl))

theorem blind_startBoot : Blind cfg (startBoot e).run :=
  .bindE blind_startProcess fun _ => .bindE (.liftE blind_track) fun _ =>
    .liftE blind_supervise

theorem blind_startInstalled : Blind cfg (startInstalled e) := by
  refine .bind blind_startBoot fun r => ?_
  cases r with
  | ok => exact .pure
  | error err => exact .perform rfl

theorem blind_boot : Blind cfg (boot e) :=
  .bind blind_lock fun _ => .bind (.stepEq (fun hs => by rw [hs.state, hs.proc, hs.closing]) (by grind)) fun _ =>
    .ite (.bind blind_startInstalled fun _ => blind_unlock) blind_unlock

theorem blind_onTimeout : Blind cfg (onTimeout cfg e p c) :=
  .stepEq (fun hs => by rw [hs.phase, hs.state]) (by grind)

theorem blind_unsubscribe : Blind cfg (unsubscribe e p phase) :=
  .ite (blind_record (fun _ => rfl) fun _ => .perform rfl) .pure

theorem blind_onExit {exit : ExitStatus} : Blind cfg (onExit cfg e p exit c) := by
  refine .lookMuted Process.muted (fun hs => hs.procs p) (fun _ => rfl) fun _ =>
    .bind blind_stopTPM fun _ => .bind blind_unsubscribe fun _ => .bind ?_ fun installed =>
      .bind (.perform rfl) fun _ => .ite blind_boot .pure
  exact .stepEq (fun hs => by rw [VM.installerDone, VM.installerDone, hs.state, hs.phase, hs.timedOut]) (by grind)

theorem blind_openVolume : Blind cfg (openVolume e).run :=
  .bindE (.liftE (.look fun hs => hs.volume e)) fun _ => .iteE .pureE (blind_recordE (fun _ => rfl) fun _ =>
    .bindE blind_acquireVolume fun _ => .liftE (.perform rfl))

theorem blind_startCheck : Blind cfg (startCheck id e).run :=
  .look fun {s s'} hs => by
    have hins : (s.record e).installedAt = (s'.record e).installedAt := (congrArg VM.installedAt (hs.record e) :)
    rw [hs.closing, hs.state, hs.proc, hins]

theorem blind_startLocked : Blind cfg (startLocked id e).run := by
  refine .bindE blind_startCheck fun _ => .bindE blind_openVolume fun _ =>
    .bindE (.liftE blind_startBoot) fun r => ?_
  cases r with
  | ok => exact .pureE
  | error err => exact .bindE (.liftE (.perform rfl)) fun _ => .throwE

theorem blind_start : Blind cfg (start id).run :=
  .bindE blind_lookupEntry fun _ => .bindE (.liftE blind_lock) fun _ =>
    .bindE (.liftE blind_startLocked) fun _ => .bindE (.liftE blind_unlock) fun _ => .pure

theorem blind_awaitExit : Blind cfg (awaitExit p).run :=
  .stepEq (fun hs => by rw [hs.qemus, hs.handles]) (by grind [map_eq_some_iff])

theorem blind_stopProcess : Blind cfg (stopProcess p) := by
  refine .bind (.bind blind_awaitExit fun r => ?_) fun _ => .stepSome (by grind) (by grind)
  cases r with
  | ok => exact .pure
  | error err => exact .bind blind_awaitExit fun _ => .pure

theorem blind_stop : Blind cfg (stop id).run :=
  .bindE blind_lookupEntry fun _ => .bindE (.stepEq (fun hs => by rw [hs.state, hs.proc]) (by grind)) fun _ =>
    .liftE blind_stopProcess

theorem blind_deleteCheck : Blind cfg (deleteCheck id e).run :=
  .stepEq (fun hs => by rw [hs.vms, hs.state, hs.proc]) (by grind)

theorem blind_stopIfRunning {proc : Option Nat} : Blind cfg (stopIfRunning proc) := by
  cases proc with
  | none => exact .pure
  | some p => exact blind_stopProcess

theorem blind_deleteLocked : Blind cfg (deleteLocked id e).run :=
  .bindE blind_deleteCheck fun _ => .bindE (.liftE blind_stopIfRunning) fun _ =>
    .bindE (.liftE blind_teardown) fun _ => .bindE (.liftE (.perform rfl)) fun _ =>
      .bindE (.liftE (.perform rfl)) fun _ => .bindE (.liftE (.perform rfl)) fun _ =>
        .bindE (.liftE (.perform rfl)) fun _ => .bindE (.liftE blind_persistNetworks) fun _ =>
          .bindE (.liftE (.perform rfl)) fun _ => .pure

theorem blind_delete : Blind cfg (delete id).run :=
  .bindE blind_lookupEntry fun _ => .bindE (.liftE blind_lock) fun _ =>
    .bindE (.liftE blind_deleteLocked) fun _ => .bindE (.liftE blind_unlock) fun _ => .pure

end Lifecycle

section Run
variable {f : Nat → Answer → System → Option (Op × α)} {g : α → Go Unit}

theorem Alike.step (hidden : ∀ {t i s r}, f t i s = some r → r.1.unprivileged = true →
      Rejoins cfg (g r.2).toProg (Proc.step f >>= g).toProg)
    (seen : ∀ {t t' i s s' r r'}, s.Akin s' → f t i s = some r → f t' i s' = some r' →
      r.1.unprivileged = false → r'.1.unprivileged = false → r.1.Like r'.1 ∧ r.2 = r'.2)
    (rest : ∀ {t i s r}, f t i s = some r → r.1.unprivileged = false → Alike cfg (g r.2).toProg (g r.2).toProg) :
    Alike cfg (Proc.step f >>= g).toProg (Proc.step f >>= g).toProg := by
  have hstep : ∀ {t i s r}, (((f t i s).map fun r => (r.1, r.2, ([] : List Call))).map fun r =>
      (r.1, (g r.2.1).toProg, r.2.2)) = some r → ∃ x, f t i s = some x ∧ r = (x.1, (g x.2).toProg, []) := by
    intro t i s r hf
    obtain ⟨y, hy, rfl⟩ := map_eq_some_iff.1 hf
    obtain ⟨x, hx, rfl⟩ := map_eq_some_iff.1 hy
    exact ⟨x, hx, rfl⟩
  refine .act (fun hf hr => ?_) (fun hf hr => ?_) (fun hs hf hf' hv hv' => ?_) fun hs hf hf' hv hv' => ?_
  · obtain ⟨x, hx, rfl⟩ := hstep hf
    exact hidden hx hr
  · obtain ⟨x, hx, rfl⟩ := hstep hf
    exact hidden hx hr
  all_goals
    obtain ⟨x, hx, rfl⟩ := hstep hf
    obtain ⟨x', hx', rfl⟩ := hstep hf'
    obtain ⟨hop, hval⟩ := seen hs hx hx' hv hv'
  · exact ⟨hop, .nil⟩
  · simp only [← hval]
    exact rest hx hv

inductive Wakes (p : Nat) (s : System) : Answer → Op × Wake → Prop where
  | ctxDone : Wakes p s .ctxDone (.read, .ctxDone)
  | exited {exit : ExitStatus} (c : Console) (h : (s.qemus (s.procs p).handles.qemu).exit = some exit) :
      Wakes p s (.exited c) (.read, .exited exit c)
  | notify {n : Notification} (c : Console) (h : s.notify.front p = some n) :
      Wakes p s (.notify c) (.notify (.receive p n), .notify n c)
  | hungUp (c : Console) (h : s.notify.front p = none) : Wakes p s (.notify c) (.notify (.hangUp p), .hungUp)
  | due (c : Console) : Wakes p s (.due c) (.read, .due c)

theorem Wakes.like {i : Answer} {r r' : Op × Wake} (hs : s.Akin s') (h : Wakes p s i r) (h' : Wakes p s' i r')
    (hv : r.1.unprivileged = false) (hv' : r'.1.unprivileged = false) : r.1.Like r'.1 ∧ r.2 = r'.2 := by
  cases h with
  | ctxDone =>
    cases h'
    exact ⟨.same rfl, rfl⟩
  | @exited exit c hx =>
    cases h' with
    | @exited exit' _ hx' =>
      rw [hs.qemus, hs.handles] at hx
      obtain rfl := some.inj (hx.symm.trans hx')
      exact ⟨.same rfl, rfl⟩
  | @notify n c hn =>
    have hpriv : n.privileged = true := by simpa [Op.unprivileged] using hv
    cases h' with
    | @notify n' _ hn' =>
      have hpriv' : n'.privileged = true := by simpa [Op.unprivileged] using hv'
      obtain ⟨rfl, -⟩ := hs.notify.front hpriv hpriv' hn hn'
      exact ⟨.same hv, rfl⟩
    | hungUp _ hn' => exact absurd hn' (hs.notify.front_ne_none hpriv hn)
  | hungUp c hn =>
    cases h' with
    | @notify n' _ hn' =>
      have hpriv' : n'.privileged = true := by simpa [Op.unprivileged] using hv'
      exact absurd hn (hs.symm.notify.front_ne_none hpriv' hn')
    | hungUp => exact ⟨.same rfl, rfl⟩
  | due c =>
    cases h'
    exact ⟨.same rfl, rfl⟩

theorem alike_run {due : Bool} : Alike cfg (body cfg (.run e p due)) (body cfg (.run e p due)) := by
  obtain ⟨f, g, hrun, hwakes, hhandles, hg⟩ : ∃ (f : Nat → Answer → System → Option (Op × Wake)) (g : Wake → Go Unit),
      run cfg e p due = (Proc.step f >>= g) ∧ (∀ {t i s r}, f t i s = some r → Wakes p s i r) ∧
      (∀ n c, (g (.notify n c)).toProg = handling e p due n c) ∧
      ∀ w, (∀ n c, w = .notify n c → n.privileged = true) → Blind cfg (g w) := by
    refine ⟨_, _, rfl, fun {t i s r} hf => ?_, fun _ _ => rfl, fun w hw => ?_⟩
    · split at hf
      · split at hf <;> cases hf
        exact .ctxDone
      · obtain ⟨exit, hx, rfl⟩ := map_eq_some_iff.1 hf
        exact .exited _ hx
      · split at hf
        · cases hf
        split at hf
        · cases hf
          exact .notify _ ‹_›
        · split at hf <;> cases hf
          exact .hungUp _ ‹_›
      · split at hf <;> cases hf
        exact .due _
      · cases hf
    · cases w with
      | ctxDone => exact .perform rfl
      | exited exit c => exact .bind blind_onExit fun _ => .perform rfl
      | notify n c => exact .bind (.perform (by simp [Op.unprivileged, hw n c rfl])) fun _ => .goto (by simp)
      | hungUp => exact .goto (by simp)
      | due c => exact .bind blind_onTimeout fun _ => .goto (by simp)
  have hbody : body cfg (.run e p due) = (Proc.step f >>= g).toProg := congrArg Proc.toProg hrun
  rw [hbody]
  refine .step (fun hf hr => ?_) (fun hs hf hf' => (hwakes hf).like hs (hwakes hf')) fun {t i s r} hf hr => ?_
  · cases hwakes hf with
    | @notify n c hn =>
      rw [← hbody, hhandles]
      exact .handling (by simpa [Op.unprivileged] using hr)
    | _ => cases hr
  · refine (hg r.2 fun n c hn => ?_).toProg
    cases hwakes hf with
    | notify =>
      cases hn
      simpa [Op.unprivileged] using hr
    | _ => cases hn

end Run

section Service

theorem blind_serveIMDS : Blind cfg (serveIMDS name).run :=
  .bindE (.liftE (.stepEq (fun hs => by rw [hs.imds]) (by grind))) fun _ => .iteE .pureE (.bindE blind_getNetwork fun _ =>
    .bindE (.stepEq (fun hs => by rw [hs.nets]) (by grind)) fun _ => .liftE (.stepEq (fun hs => by rw [hs.imds]) (by grind)))

theorem blind_addNetwork {spec : Network.Spec} {leases : GoMap String Network.Addr} :
    Blind cfg (addNetwork spec leases).run :=
  .stepSome (fun hs => by grind [hs.nets]) (by grind)

theorem blind_checkNetwork : Blind cfg (checkNetwork name).run :=
  .stepSome (fun hs => by grind [hs.nets]) (by grind)

theorem blind_removeNetwork : Blind cfg (removeNetwork name).run :=
  .bindE blind_checkNetwork fun _ => .stepEq (fun _ => rfl) (by grind)

theorem blind_createNetwork {spec : Network.Spec} : Blind cfg (createNetwork spec).run := by
  refine .bindE blind_addNetwork fun _ => .bindE (.liftE blind_serveIMDS) fun r => ?_
  cases r with
  | ok => exact blind_persistNetworks
  | error err => exact .bindE (.liftE blind_removeNetwork) fun _ => .throwE

theorem blind_shutServer {srv : Option Nat} : Blind cfg (shutServer srv) := by
  cases srv with
  | none => exact .pure
  | some k => exact .perform rfl

theorem blind_deleteNetwork : Blind cfg (deleteNetwork name).run :=
  .bindE (.liftE (.look fun hs => by simp only [hs.vms, hs.spec])) fun users =>
    .iteE .throwE (.bindE blind_removeNetwork fun _ =>
      .bindE (.liftE (.stepEq (fun hs => by rw [hs.imds]) (by grind))) fun srv =>
        .bindE (.liftE blind_shutServer) fun _ => blind_persistNetworks)

theorem blind_forwardTo {network : String} {ip : Network.Addr} : Blind cfg (forwardTo e network ip).run :=
  .bindE blind_getNetwork fun _ => .bindE (.stepEq (fun hs => by rw [hs.nets, hs.forwards]) (by grind)) fun _ =>
    .liftE (.perform rfl)

theorem blind_forward {port : Int} : Blind cfg (forward id port).run := by
  refine .iteE .throwE (.bindE blind_lookupEntry fun e => blind_recordE (fun _ => rfl) fun r => ?_)
  cases r.ip with
  | none => exact .throwE
  | some ip => exact .iteE .throwE blind_forwardTo

theorem blind_resolveInstance : Blind cfg (resolveInstance source) :=
  .stepEq (fun hs => by simp only [hs.lookupByIP, System.instanceOf, hs.id]) (by grind [map_eq_some_iff])

theorem blind_imdsNonce : Blind cfg (imdsNonce source) := by
  refine .bind blind_resolveInstance fun found => ?_
  cases found with
  | none => exact .pure
  | some id =>
    exact .bind (.stepEq (fun _ => rfl) (by grind)) fun _ => .stepEq (fun hs => by rw [hs.vms]) (by grind)

theorem blind_imdsReport {data : Bytes} : Blind cfg (imdsReport source data) := by
  refine .bind blind_resolveInstance fun found => ?_
  cases found with
  | none => exact .pure
  | some id =>
    exact .bind (.stepEq (fun hs => by rw [hs.vms, hs.writable]) (by grind)) fun _ =>
      .ite (.stepEq (fun _ => rfl) (by grind)) .pure

theorem policyFor_akin (hs : s.Akin s') (id : String) : policyFor cfg s id = policyFor cfg s' id := by
  unfold policyFor
  rw [hs.vms]
  cases s'.vms.get id with
  | none => rfl
  | some e => simp only [hs.spec]

theorem blind_reject {stage : Stage} :
    Blind cfg (reject (concurrent cfg id) vmID stage res) := .bind (.perform rfl) fun _ => .pure

theorem blind_conclude {q : Tpmquote.Quote} :
    Blind cfg (conclude (concurrent cfg id) vmID req q res) := by
  refine .bind (.stepEq (fun hs => by rw [hs.verifier]) (by grind)) fun ok =>
    .ite (.bind (.perform rfl) fun _ => .pure) (.bind (.look fun hs => by rw [hs.verifier]) fun pinned => ?_)
  cases pinned with
  | some pinned => exact blind_reject
  | none => exact blind_reject

theorem blind_submitQuote :
    Blind cfg (submitQuote (concurrent cfg id) cfg.tpm2 cfg.crypto cfg.attest vmID req) := by
  refine .bind (.stepEq (fun hs => by rw [hs.clock]) (by grind)) fun now =>
    .bind (.stepEq (fun hs => by rw [hs.verifier, hs.clock]) (by grind)) fun consumed =>
      .ite blind_reject (.ite blind_reject
        (.bind (.look fun hs => policyFor_akin hs vmID) fun policy => ?_))
  cases policy with
  | error err =>
    cases err with
    | noPolicy text => exact blind_reject
    | other text => exact .pure
  | ok policy =>
    dsimp only
    cases examine cfg.tpm2 cfg.crypto req { time := now } with
    | error res => exact blind_reject
    | ok x =>
      refine .bind (.look fun hs => by rw [hs.verifier]) fun pinned => .ite blind_reject ?_
      cases judge cfg.attest policy req.stage x.1 x.2 with
      | error res => exact blind_reject
      | ok res => exact blind_conclude

theorem blind_imdsQuote : Blind cfg (imdsQuote cfg source req) := by
  refine .bind blind_resolveInstance fun found => ?_
  cases found with
  | none => exact .pure
  | some id =>
    refine .bind blind_submitQuote fun r => ?_
    cases r with
    | error err => exact .perform rfl
    | ok res =>
      exact .bind (.stepEq (fun hs => by rw [hs.verifier, hs.clock]) (by grind)) fun _ => .stepEq (fun hs => by rw [hs.vms]) (by grind)

theorem blind_reattachOpened {r : VM} : Blind cfg (reattachOpened e r h).run := by
  refine .bindE blind_getNetwork fun n => .bindE blind_attachNetwork fun _ =>
    .bindE (.liftE (.stepEq (fun _ => rfl) (by grind))) fun tpm =>
      .bindE (.liftE (.stepEq (fun hs => by rw [hs.nextQemu]) (by grind))) fun a => ?_
  · cases a with
    | error err => exact .bindE (.liftE blind_stopTPM) fun _ => .throwE
    | ok =>
      refine .bindE (.liftE blind_subscribe) fun _ =>
        .bindE (.liftE (.stepEq (fun hs => by rw [hs.nextProc]) (by grind))) fun p =>
          .bindE (.liftE blind_supervise) fun _ => .liftE (.ite (.spawn fun _ hf hf' => ?_) .pure)
      cases hf
      cases hf'
      exact ⟨.same rfl, rfl, .cons (.same (by simp)) .nil⟩

theorem blind_reattach : Blind cfg (reattach e).run := by
  refine blind_recordE (fun _ => rfl) fun r => ?_
  cases r.processes with
  | none => exact .throwE
  | some h =>
    refine .bindE blind_openVolume fun _ => .bindE (.liftE blind_reattachOpened) fun a => ?_
    cases a with
    | ok => exact .pureE
    | error err => exact .bindE (.liftE (.perform rfl)) fun _ => .throwE

theorem blind_reattachLive {live : Bool} : Blind cfg (reattachLive e live) := by
  refine .ite (.bind blind_reattach fun r => ?_) .pure
  cases r with
  | ok => exact .pure
  | error err => exact .perform rfl

theorem blind_loadOne : Blind cfg (loadOne id) := by
  refine .bind (.step fun {t t' i s s' r r'} hs hf hf' => ?_) fun found => ?_
  · have hd := hs.disk id
    cases hr : s.disk.get id with
    | none =>
      have hr' : s'.disk.get id = none := by simpa [hr] using hd.symm
      simp only [hr] at hf
      simp only [hr'] at hf'
      cases hf
      cases hf'
      exact ⟨.same rfl, rfl⟩
    | some v =>
      obtain ⟨v', hr', hv⟩ : ∃ v', s'.disk.get id = some v' ∧ v'.muted = v.muted := by simpa [hr] using hd.symm
      have hid : v'.id = v.id := (congrArg VM.id hv :)
      have hloaded : v'.loaded.muted = v.loaded.muted := by rw [VM.muted_loaded, hv, ← VM.muted_loaded]
      have hlive : v'.loaded.state = v.loaded.state := (congrArg VM.state hloaded :)
      simp only [hr] at hf
      simp only [hr', hid, hlive, ← hs.nextEntry] at hf'
      split at hf <;> cases hf
      all_goals
        rename_i heq
        simp only [heq, if_true, if_false] at hf'
        cases hf'
      · exact ⟨.loads id hv.symm, rfl⟩
      · exact ⟨.same rfl, rfl⟩
  · cases found with
    | none => exact .pure
    | some x => exact .bind blind_reattachLive fun _ => .perform rfl

theorem blind_loadAll {ids : List String} : Blind cfg (loadAll ids) := by
  induction ids with
  | nil => exact .pure
  | cons id rest ih => exact .bind blind_loadOne fun _ => ih

theorem blind_restoreAll : Blind cfg (restoreAll states).run := by
  induction states with
  | nil => exact .pureE
  | cons st rest ih => exact .bindE blind_addNetwork fun _ => ih

theorem blind_serveAll : Blind cfg (serveAll states).run := by
  induction states with
  | nil => exact .pureE
  | cons st rest ih => exact .bindE blind_serveIMDS fun _ => ih

theorem System.Akin.sortedKeys (hs : s.Akin s') :
    s.disk.keys.insertionSort (· ≤ ·) = s'.disk.keys.insertionSort (· ≤ ·) := by
  refine GoMap.insertionSort_keys (· ≤ ·) fun id => ?_
  rw [← map_eq_none_iff, hs.disk id, map_eq_none_iff]

theorem blind_load : Blind cfg load.run :=
  .bindE (.liftE (.stepEq (fun hs => by rw [hs.host]) (by grind))) fun states =>
    .bindE blind_restoreAll fun _ => .bindE blind_serveAll fun _ =>
      .bindE (.liftE (.stepEq (fun hs => by rw [hs.sortedKeys]) (by grind))) fun ids =>
        .bindE (.liftE blind_loadAll) fun _ => .liftE (.perform rfl)

theorem blind_cancelAndWait : Blind cfg cancelAndWait := by
  exact .bind (.perform rfl) fun _ => .stepSome (by grind) (by grind)

theorem blind_stopAll : Blind cfg (stopAll es) := by
  refine .bind (.spawn fun _ hf hf' => ?_) fun _ =>
    .bind (.stepSome (by grind) (by grind)) fun _ => blind_cancelAndWait
  cases hf
  cases hf'
  refine ⟨.same rfl, rfl, ?_⟩
  rw [forall₂_map_left_iff, forall₂_map_right_iff]
  exact forall₂_same.2 fun e _ => .closeStop e _ _

theorem blind_waitStarts : Blind cfg (waitStarts es) := by
  induction es with
  | nil => exact .pure
  | cons e rest ih => exact .bind blind_lock fun _ => .bind blind_unlock fun _ => ih

theorem blind_detachEach : Blind cfg (detachEach es) := by
  induction es with
  | nil => exact .pure
  | cons e rest ih =>
    refine .bind ?_ fun _ => ih
    refine .lookMuted (fun x => (x.1.map Process.muted, x.2)) (fun {s s'} hs => ?_) (fun x => ?_) fun x => ?_
    · have hprocs : Process.muted ∘ s.procs = Process.muted ∘ s'.procs := funext hs.procs
      simp only [Option.map_map, hprocs, hs.proc, hs.cid]
    · obtain ⟨none | pr, cid⟩ := x <;> rfl
    · obtain ⟨none | pr, cid⟩ := x
      · exact .pure
      · exact .bind (.perform rfl) fun _ => .ite (.perform rfl) .pure

theorem blind_close : Blind cfg (close cfg) := by
  refine .bind (.stepEq (fun hs => by rw [hs.vms]) (by grind)) fun es =>
    .bind (.ite (.bind blind_waitStarts fun _ => .bind blind_cancelAndWait fun _ => blind_detachEach)
      blind_stopAll) fun _ => .bind (.bind (.stepEq (fun hs => by rw [hs.imds]) (by grind))
        fun ks => ?_) fun _ => .perform rfl
  induction ks with
  | nil => exact .pure
  | cons k rest ih => exact .bind (.perform rfl) fun _ => ih

theorem Blind.ignore {x : GoE α} (h : Blind cfg x.run) : Alike cfg (ignore x).toProg (ignore x).toProg :=
  toProg (h.bind fun _ => .perform rfl)

theorem Blind.answer {x : Go Unit} (h : Blind cfg x) : Alike cfg (answer x).toProg (answer x).toProg :=
  toProg (h.bind fun _ => .perform rfl)

theorem alike_closeStop {w w' : Nat} : Alike cfg (closeStop e w).toProg (closeStop e w').toProg := by
  have hstop : Blind cfg (do
      lock e
      let r ← record e
      let _ ← (stop r.id).run
      unlock e) :=
    .bind blind_lock fun _ => blind_record (fun _ => rfl) fun r => .bind blind_stop fun _ => blind_unlock
  refine hstop _ _ fun _ => .act ?_ ?_ ?_ ?_
  · rintro t n i s r ⟨⟩ ⟨⟩
  · rintro t n i s r ⟨⟩ ⟨⟩
  · rintro t t' n n' i s s' r r' - ⟨⟩ ⟨⟩ - -
    exact ⟨.stopEnds .., .nil⟩
  · rintro t t' n n' i s s' r r' - ⟨⟩ ⟨⟩ - -
    exact .done

theorem alike_body {c c' : Call} (h : c.Like c') : Alike cfg (body cfg c) (body cfg c') := by
  cases h with
  | closeStop e w w' => exact alike_closeStop
  | same hc =>
    cases c with
    | create spec => exact blind_create.ignore
    | start id => exact blind_start.ignore
    | stop id => exact blind_stop.ignore
    | reboot id => exact Blind.ignore (.bindE blind_stop fun _ => blind_start)
    | delete id => exact blind_delete.ignore
    | close => exact blind_close.toProg
    | createNetwork spec => exact blind_createNetwork.ignore
    | deleteNetwork name => exact blind_deleteNetwork.ignore
    | forward id port => exact blind_forward.ignore
    | nonce n source => exact blind_imdsNonce.answer
    | quote n source req => exact blind_imdsQuote.answer
    | report n source data => exact blind_imdsReport.answer
    | deliver n => exact Blind.toProg (.perform (by simp [Op.unprivileged, hc n rfl]))
    | waitFor e w => exact blind_waitFor.toProg
    | run e p due => exact alike_run
    | closeStop e w => exact alike_closeStop
    | resumeStop p => exact blind_stopProcess.toProg
    | load => exact blind_load.ignore

end Service

theorem Op.Like.symm {o o' : Op} (h : o.Like o') : o'.Like o := by
  cases h with
  | same h => exact .same h
  | loads id h => exact .loads id h.symm
  | supervises p k k' => exact .supervises p k' k
  | stopEnds e w w' => exact .stopEnds e w' w

theorem Call.Like.symm {c c' : Call} (h : c.Like c') : c'.Like c := by
  cases h with
  | same h => exact .same h
  | closeStop e w w' => exact .closeStop e w' w

theorem Alike.symm {pr pr' : Program} (h : Alike cfg pr pr') : Alike cfg pr' pr := by
  induction h with
  | done => exact .done
  | jump h => exact .jump h.symm
  | act hidden hidden' seen rest ih =>
    refine .act hidden' hidden (fun hs hf hf' hv hv' => ?_) fun hs hf hf' hv hv' => ih hs.symm hf' hf hv' hv
    obtain ⟨hop, hcalls⟩ := seen hs.symm hf' hf hv' hv
    exact ⟨hop.symm, (Forall₂.imp (fun _ _ h => h.symm) hcalls.flip)⟩

/-- The programs of goroutines that correspond: at an end, or on the way to code that is alike. -/
inductive Kin (cfg : Config) : Program → Program → Prop where
  | stuck {pr pr' : Program} (h : ∀ t n i s, (service cfg).resume t n i s pr = none)
      (h' : ∀ t n i s, (service cfg).resume t n i s pr' = none) : Kin cfg pr pr'
  | alike {pr pr' : Program} {f f' : Nat → Nat → Answer → System → Option (Op × Program × List Call)}
      (hpr : Rejoins cfg pr (.act f)) (hpr' : Rejoins cfg pr' (.act f')) (h : Alike cfg (.act f) (.act f')) :
      Kin cfg pr pr'

section Kin
variable {pr pr' rest rest' : Program} {f : Nat → Nat → Answer → System → Option (Op × Program × List Call)}
  {t t' k k' : Nat} {i : Answer} {o o' : Op} {l l' : List Call}

namespace Kin

theorem symm (h : Kin cfg pr pr') : Kin cfg pr' pr := by
  cases h with
  | stuck h h' => exact .stuck h' h
  | alike hpr hpr' h => exact .alike hpr' hpr h.symm

theorem of_alike (h : Alike cfg pr pr') : Kin cfg pr pr' := by
  cases h with
  | done => exact .stuck (fun _ _ _ _ => rfl) fun _ _ _ _ => rfl
  | act hidden hidden' seen rest => exact .alike (.refl _) (.refl _) (.act hidden hidden' seen rest)
  | @jump c c' hc =>
    have hbody : Alike cfg _ _ := alike_body hc
    generalize hb : body cfg c = b at hbody
    generalize hb' : body cfg c' = b' at hbody
    cases hbody with
    | act hidden hidden' seen rest =>
      exact .alike (hb ▸ .jump c) (hb' ▸ .jump c') (.act hidden hidden' seen rest)
    | _ =>
      refine .stuck (fun t n i s => ?_) fun t n i s => ?_
      · simp only [Machine.resume, service, hb]
      · simp only [Machine.resume, service, hb']

end Kin

theorem Rejoins.resume (h : Rejoins cfg pr (.act f)) (hres : (service cfg).resume t k i s pr = some (o, rest, l)) :
    f t k i s = some (o, rest, l) ∨ (o.unprivileged = true ∧ Rejoins cfg rest (.act f)) := by
  generalize hg : Prog.act f = g at h
  cases h with
  | refl =>
    subst hg
    exact .inl hres
  | jump c =>
    simp only [Machine.resume, service, ← hg] at hres
    exact .inl hres
  | @handling e p due n c hn =>
    cases hres
    refine .inr ⟨by simp [Op.unprivileged, hn], .jump _⟩

namespace Kin

theorem hidden (h : Kin cfg pr pr') (hres : (service cfg).resume t k i s pr = some (o, rest, l))
    (ho : o.unprivileged = true) : Kin cfg rest pr' := by
  cases h with
  | stuck h => cases (h t k i s).symm.trans hres
  | alike hpr hpr' h =>
    refine .alike ?_ hpr' h
    rcases hpr.resume hres with hf | ⟨-, hrest⟩
    · cases h with
      | act hidden => exact hidden hf ho
    · exact hrest

theorem seen (h : Kin cfg pr pr') (hs : s.Akin s') (hres : (service cfg).resume t k i s pr = some (o, rest, l))
    (hres' : (service cfg).resume t' k' i s' pr' = some (o', rest', l')) (ho : o.unprivileged = false)
    (ho' : o'.unprivileged = false) : o.Like o' ∧ Kin cfg rest rest' ∧
      Forall₂ (Kin cfg) (l.map (body cfg)) (l'.map (body cfg)) := by
  cases h with
  | stuck h => cases (h t k i s).symm.trans hres
  | @alike f f' hpr hpr' h =>
    have hf : f t k i s = some (o, rest, l) := (hpr.resume hres).resolve_right (by simp [ho])
    have hf' : f' t' k' i s' = some (o', rest', l') := (hpr'.resume hres').resolve_right (by simp [ho'])
    cases h with
    | act _ _ hseen hrest =>
      obtain ⟨hop, hcalls⟩ := hseen hs hf hf' ho ho'
      refine ⟨hop, of_alike (hrest hs hf hf' ho ho'), ?_⟩
      rw [forall₂_map_left_iff, forall₂_map_right_iff]
      exact hcalls.imp fun _ _ hc => of_alike (alike_body hc)

end Kin

end Kin

end VmManager.Vm
