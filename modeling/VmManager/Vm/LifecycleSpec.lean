import VmManager.Vm.Assertions

/-! Every program of the lifecycle against the outline: what the goroutine knows before it, and after
it returns or fails. -/
namespace VmManager.Vm
open Encoding Attest Interleaving Interleaving.Outline List Option Function Vm.System Op
variable {cfg : Config} {s s' : System} {t e p cid n : Nat} {P Q : System → Prop} {ip : Network.Addr}
  {exit : ExitStatus} {done : List Op} {h : Processes} {spec : Spec} {id : String} {tpm : Nat}
  {name err : String} {c : Console}

section Host
variable [Firm t P]

theorem getNetwork_spec : MeetsE cfg t P (getNetwork name)
    (fun n s => P s ∧ s.Called n name) P := by
  refine manager_rule fun s hi hp => ?_
  split
  · rename_i n hn
    obtain ⟨net, hnet, hname, -⟩ := hi.nets.named name n hn
    exact ⟨hp, net, hnet, hname⟩
  · exact hp

theorem attachNetwork_rule {R : Network.Addr → System → Prop} {id : String}
    (hP : ∀ s, Inv s → P s → s.InCharge t e ∧ s.Joins e n ∧ (s.record e).id = id)
    (hR : ∀ s ip, Inv s → P s → (Op.net (.attach e n id ip)).Guard cfg s t →
      R ip (s.effect t (.net (.attach e n id ip)))) :
    MeetsE cfg t P (attachNetwork e n id) R P := by
  refine step_rule fun {s i o a} hi hp hf => ?_
  have hread : read.Guard cfg s t ∧ P (s.effect t .read) :=
    have hg : read.Guard cfg s t := trivial
    ⟨hg, Firm.quiet hi hg rfl hp⟩
  split at hf
  · rename_i net hnet
    split at hf <;> cases hf
    · rename_i ip net' hat
      obtain ⟨hc, ⟨ha, net₁, hnet₁, hname⟩, hid⟩ := hP s hi hp
      obtain rfl := some.inj (hnet.symm.trans hnet₁)
      have hg : (Op.net (.attach e n id ip)).Guard cfg s t := ⟨ha, hc, hid, net, net', hnet, hat, hname⟩
      exact ⟨hg, hR s ip hi hp hg⟩
    · exact hread
  · cases hf
    exact hread
  · cases hf

theorem persistNetworks_spec (hP : ∀ s, P s → s.serving = true) :
    MeetsE cfg t P persistNetworks (fun _ => P) P := by
  refine .bind (manager_rule (R := fun _ => P) fun _ _ hp => hp) fun states =>
    keep_rule fun {s i o a} _ hp hf => ?_
  split at hf <;> cases hf
  · exact ⟨⟨hP s hp, ‹_›⟩, rfl⟩
  · rename_i hw
    exact ⟨by simpa [Guard, HostOp.Guard] using hw, rfl⟩

theorem createVolume_spec (hP : ∀ s, P s → ∃ e, (s.record e).id = id ∧ s.Alive e ∧
    (s.entries e).opMu = some t ∧ (s.entries e).owner = some t) :
    MeetsE cfg t P (createVolume id) (fun _ => P) P := by
  refine keep_rule fun {s i o a} _ hp hf => ?_
  split at hf
  · split at hf <;> cases hf
    exact ⟨hP s hp, rfl⟩
  · cases hf
    exact ⟨trivial, rfl⟩
  · cases hf

theorem acquireVolume_spec :
    MeetsE cfg t P (acquireVolume id) (fun _ => P) P := by
  refine keep_rule fun _ _ hf => ?_
  split at hf
  · split at hf <;> cases hf
    exact ⟨trivial, rfl⟩
  · cases hf
    exact ⟨trivial, rfl⟩
  · cases hf

theorem startTPM_spec :
    MeetsE cfg t P (startTPM id) (fun _ => P) P := by
  refine keep_rule fun _ _ hf => ?_
  split at hf <;> cases hf
  · exact ⟨rfl, rfl⟩
  · exact ⟨trivial, rfl⟩

theorem stopTPM_spec {tpm : Option Nat} :
    Meets cfg t P (stopTPM tpm) fun _ => P := by
  cases tpm with
  | none => exact .pure'
  | some tpm => exact perform_quiet rfl fun _ _ _ => trivial

theorem abandonStart_spec (hP : ∀ s, P s → (s.entries e).opMu = some t) (phase : Phase)
    (tpm cid : Nat) : Meets cfg t P (abandonStart e phase tpm cid) fun _ => P := by
  refine .bind stopTPM_spec fun _ => .ite (fun _ => ?_) fun _ => .pure'
  exact perform_quiet rfl fun s _ hp => hP s hp

section Files
variable (hP : ∀ s, P s → ∃ e, (s.record e).id = id ∧ s.Alive e ∧
  (s.entries e).opMu = some t ∧ (s.entries e).owner = some t)
include hP

theorem generateSSHKey_spec :
    MeetsE cfg t P (generateSSHKey id) (fun _ => P) P := by
  refine keep_rule fun {s i o a} _ hp hf => ?_
  split at hf <;> cases hf
  · exact ⟨hP s hp, rfl⟩
  · exact ⟨trivial, rfl⟩

theorem copyVars_spec : MeetsE cfg t P (copyVars id) (fun _ => P) P := by
  refine keep_rule fun {s i o a} _ hp hf => ?_
  split at hf <;> cases hf
  · exact ⟨hP s hp, rfl⟩
  · exact ⟨trivial, rfl⟩

end Files

theorem writeUserData_spec (hP : ∀ s, P s → s.Alive e ∧ (s.entries e).opMu = some t ∧ (s.entries e).owner = some t) :
    MeetsE cfg t P (writeUserData e) (fun _ => P) P := by
  refine keep_rule fun {s i o a} _ hp hf => ?_
  split at hf
  · cases hf
    exact ⟨trivial, rfl⟩
  · split at hf <;> cases hf
    · exact ⟨⟨e, rfl, hP s hp⟩, rfl⟩
    · exact ⟨trivial, rfl⟩

end Host

section Start
variable {phase : Phase}

theorem Startable.attached (hi : Inv s)
    (h : Startable t e phase s) (hg : (Op.net (.attach e n id ip)).Guard cfg s t) :
    Attached t e phase n ip (s.effect t (.net (.attach e n id ip))) :=
  ⟨Held.steady s _ hi (hi.same hg fun hc => hc).steady (hi.later hg) h, update_self ..⟩

theorem Listener.starting_subscribe_self (l : Listener) (e cid : Nat) :
    (l.subscribe e cid).starting e ≠ none := by
  unfold Listener.subscribe
  split <;> simp

theorem Attached.subscribed {n cid : Nat} (hi : Inv s)
    (h : Attached t e .boot n ip s) (hg : (Op.notify (.subscribe e cid)).Guard cfg s t) :
    Prepared t e .boot (s.effect t (.notify (.subscribe e cid))) := by
  refine ⟨Held.steady s _ hi (hi.same hg fun hc => hc).steady (hi.later hg) h.startable, ?_, fun _ => ?_⟩
  · rw [show (s.effect t (.notify (.subscribe e cid))).lease e = s.lease e from rfl, h.lease]
    simp
  · exact s.notify.starting_subscribe_self e cid

theorem subscribe_spec (n cid : Nat) (ip : Network.Addr) :
    Meets cfg t (fun s => Attached t e phase n ip s ∧ AtCID t e cid s)
      (subscribe e phase cid) fun _ s => Prepared t e phase s ∧ AtCID t e cid s := by
  cases phase with
  | install =>
    refine ret_rule fun s _ hp => ⟨⟨hp.1.startable, ?_, nofun⟩, hp.2⟩
    rw [hp.1.lease]
    simp
  | boot =>
    have hg : ∀ s, Attached t e .boot n ip s ∧ AtCID t e cid s → (Op.notify (.subscribe e cid)).Guard cfg s t :=
      fun s hp => ⟨.inl hp.1.startable.vacant, hp.2.cid⟩
    exact perform_rule (fun s _ hp => hg s hp) fun s hi hp =>
      ⟨hp.1.subscribed hi (hg s hp), hp.2.opMu, hp.2.alive, hp.2.cid⟩

theorem Prepared.resubscribe_spec : Meets cfg t (fun s => Prepared t e .boot s ∧ AtCID t e cid s)
      (perform (.notify (.subscribe e cid))) fun _ s => Prepared t e .boot s ∧ AtCID t e cid s := by
  have hg : ∀ s, Prepared t e .boot s ∧ AtCID t e cid s → (Op.notify (.subscribe e cid)).Guard cfg s t :=
    fun s hp => ⟨.inl hp.1.startable.vacant, hp.2.cid⟩
  refine perform_rule (fun s _ hp => hg s hp) fun s hi hp => ?_
  obtain ⟨⟨n, ip⟩, hlease⟩ := ne_none_iff_exists'.1 hp.1.equipped.1
  exact ⟨Attached.subscribed hi ⟨hp.1.startable, hlease⟩ (hg s hp), hp.2.opMu, hp.2.alive, hp.2.cid⟩

theorem Prepared.started (h : Prepared t e phase s) :
    Started t e phase s.nextQemu (s.effect t (.runtimeStart e phase cid (some s.nextQemu))) := by
  obtain ⟨hm, ha, hp, hu⟩ := h.startable.vacant
  refine ⟨hm, ha, hp, fun q ⟨ha', he, hs⟩ => ?_, ?_, h.startable.kept, h.startable.inTime,
    h.startable.gone, Nat.lt_succ_self _, by simp [effect, apply], ?_,
    by simp [effect, apply]⟩
  · by_contra hne
    simp only [effect, apply, elim_some, update_of_ne hne] at he hs
    exact hu q ⟨ha, he, hs⟩
  · cases phase <;> exact h.startable.ready
  · refine ⟨h.equipped.1, fun hph => ?_⟩
    subst hph
    have hstart : (s.effect t (.runtimeStart e .boot cid (some s.nextQemu))).notify.starting =
        s.notify.starting := s.notify.starting_startedFor e s.nextQemu
    rw [hstart]
    exact h.equipped.2 rfl

theorem runtimeStart_spec : Meets cfg t (fun s => Prepared t e phase s ∧ AtCID t e cid s)
      (runtimeStart e phase cid) (Post (fun q => Started t e phase q)
        fun s => Prepared t e phase s ∧ AtCID t e cid s) := by
  refine step_rule fun {s i o a} hi hpre hf => ?_
  obtain ⟨hp, hcid⟩ := hpre
  have hst := hp.startable
  have hg : ∀ q, (∀ q', q = some q' → q' = s.nextQemu) → (Op.runtimeStart e phase cid q).Guard cfg s t :=
    fun q hq => ⟨hst.vacant, hst.ready, hst.kept, hst.inTime, hq, hp.equipped⟩
  split at hf <;> cases hf
  · exact ⟨hg _ fun q' hq => (some.inj hq).symm, hp.started⟩
  · refine ⟨hg _ nofun, ⟨⟨hst.vacant, ?_, hst.kept, hst.inTime, hst.gone, hst.serving⟩, hp.equipped⟩,
      hcid.opMu, hcid.alive, hcid.cid⟩
    cases phase <;> exact hst.ready

theorem Prepared.reassigned (cfg : Config) (hi : Inv s) (h : Prepared t e phase s)
    (hcid : cid = s.freeCIDFrom ((s.record e).cid + 1)) : (Op.update e (.reassigned cid)).Guard cfg s t ∧
      Prepared t e phase (s.effect t (.update e (.reassigned cid))) ∧
      AtCID t e cid (s.effect t (.update e (.reassigned cid))) := by
  have hg : (Op.update e (.reassigned cid)).Guard cfg s t :=
    ⟨h.startable.vacant.2.1, h.startable.vacant, ⟨phase, h.startable.ready⟩, hcid⟩
  have hst := Held.steady s _ hi (Steady.update hi hg rfl) (hi.later hg) h.startable
  refine ⟨hg, ⟨hst, h.equipped⟩, hst.vacant.1, hst.vacant.2.1, ?_⟩
  rw [s.update_record]
  rfl

theorem reassignCID_spec {prev : Nat} : Meets cfg t (fun s => Prepared t e phase s ∧ AtCID t e prev s)
      (reassignCID e prev) (Post (fun next s => Prepared t e phase s ∧ AtCID t e next s)
        (Prepared t e phase)) := by
  refine step_rule fun {s i o a} hi hp hf => ?_
  cases hf
  have hfree : s.freeCIDFrom (prev + 1) = s.freeCIDFrom ((s.record e).cid + 1) := by rw [hp.2.cid]
  obtain ⟨hg, hprep, hcid⟩ := hp.1.reassigned cfg hi hfree
  refine ⟨hg, ?_⟩
  split
  · exact ⟨hprep, hcid⟩
  · exact hprep

theorem Prepared.opMu (h : Prepared t e phase s) : (s.entries e).opMu = some t := h.startable.vacant.1

theorem startFailed_spec {R : Processes → System → Prop} :
    MeetsE cfg t (Prepared t e phase) (startFailed e phase tpm cid err)
      R (Prepared t e phase) :=
  .bindE (.liftE (abandonStart_spec (fun _ hp => hp.opMu) phase tpm cid)) fun _ =>
    .throwE

theorem nextCID_spec :
    MeetsE cfg t (fun s => Prepared t e phase s ∧ AtCID t e cid s)
      (nextCID e phase tpm cid err)
      (fun next s => Prepared t e phase s ∧ AtCID t e next s) (Prepared t e phase) := by
  refine .bindE (.liftE reassignCID_spec) fun r => ?_
  cases r with
  | error rerr =>
    exact .bindE (.liftE (abandonStart_spec (fun _ hp => hp.opMu) phase tpm cid)) fun _ =>
      .throwE
  | ok next =>
    refine .ite (fun hph => ?_) fun _ => .pureE
    subst hph
    refine .bindE (.liftE (perform_quiet rfl fun s _ hp => hp.2.opMu)) fun _ => ?_
    exact .bindE (.liftE Prepared.resubscribe_spec) fun _ => .pureE

theorem startQemu_spec {retries : Nat} :
    MeetsE cfg t (fun s => Prepared t e phase s ∧ AtCID t e cid s)
      (startQemu e phase tpm retries cid)
      (fun h => Started t e phase h.qemu) (Prepared t e phase) := by
  induction retries generalizing cid with
  | zero =>
    refine .bindE (.liftE runtimeStart_spec) fun r => ?_
    cases r with
    | ok q => exact retE_rule fun _ _ hp => hp
    | error err => exact use_rule (fun _ _ hp => hp.1) startFailed_spec
  | succ retries ih =>
    refine .bindE (.liftE runtimeStart_spec) fun r => ?_
    cases r with
    | ok q => exact retE_rule fun _ _ hp => hp
    | error err =>
      refine .ite (fun _ => ?_) fun _ =>
        use_rule (fun _ _ hp => hp.1) startFailed_spec
      exact .bindE nextCID_spec fun _ => ih

theorem startProcess_spec : MeetsE cfg t (Startable t e phase) (startProcess e phase)
    (fun h => Started t e phase h.qemu) (Startable t e phase) := by
  refine .bindE (.liftE (look_rule (R := fun r s => Startable t e phase s ∧ s.Reads e r ∧
    AtCID t e r.cid s) fun s _ hp => ⟨hp, ⟨hp.vacant.2.1, rfl, rfl⟩, hp.vacant.1, hp.vacant.2.1, rfl⟩))
    fun r => ?_
  refine .bindE (fail_rule getNetwork_spec fun _ _ hp => hp.1) fun n => ?_
  refine .bindE (fail_rule (attachNetwork_rule (e := e)
    (R := fun ip s => Attached t e phase n ip s ∧ AtCID t e r.cid s) (fun s _ hp => ?_)
    fun s ip hi hp hg => ⟨hp.1.1.attached hi hg, hp.1.2.2.opMu, hp.1.2.2.alive, hp.1.2.2.cid⟩)
    fun _ _ hp => hp.1.1) fun ip => ?_
  · obtain ⟨⟨hst, ⟨ha, hid, hspec⟩, -⟩, hcalled⟩ := hp
    exact ⟨.inl hst.vacant.1, ⟨ha, by rw [hspec]; exact hcalled⟩, hid⟩
  refine .bindE (fail_rule startTPM_spec fun _ _ hp => hp.1.startable) fun tpm => ?_
  refine .bindE (.liftE (subscribe_spec n _ ip)) fun _ => ?_
  exact fail_rule startQemu_spec fun _ _ hp => hp.startable

def Tracking (t e p : Nat) (s : System) : Prop := Locked t e s ∧ s.Follows t e p

instance : Firm t (Tracking t e p) := inferInstanceAs (Firm t fun s => Locked t e s ∧ s.Follows t e p)

theorem Started.guard (hs : Started t e phase h.qemu s) : (Op.track e phase h).Guard cfg s t :=
  ⟨hs.opMu, hs.alive, hs.proc, hs.only, hs.ready, hs.kept, hs.inTime, hs.gone, hs.lt, hs.entry, hs.phase, hs.equipped⟩

theorem Started.tracking (hi : Inv s) (hs : Started t e phase h.qemu s) :
    Tracking t e s.nextProc (s.effect t (.track e phase h)) := by
  have he := s.track_entry t e phase h
  have hr := s.track_record t e phase h
  have hproc : (s.effect t (.track e phase h)).procs s.nextProc =
      { entry := e, phase := phase, handles := h, supervisor := some t } := update_self ..
  have ha : (s.effect t (.track e phase h)).Alive e := by
    rw [Alive, hr, VM.update_serial]
    exact hs.alive
  have hnext : ((s.effect t (.track e phase h)).entries e).proc = some s.nextProc := by rw [he]
  refine ⟨⟨by rw [he]; exact hs.opMu, ha, fun q hq => ?_, ?_⟩, ⟨hnext, by rw [hproc]⟩,
    ⟨ha, fun hl => ?_⟩, Nat.lt_succ_self _, by rw [hproc]; exact hs.lt⟩
  · obtain rfl := hs.only q ⟨hs.alive, hq.2⟩
    exact ⟨_, hnext, by rw [hproc]⟩
  · rw [hr]
    cases phase <;> (intro h; cases h)
  · cases hs.opMu.symm.trans ((hi.entry e).loading hl).2.2.1

theorem track_spec : Meets cfg t (Started t e phase h.qemu)
    (track e phase h) fun p => Tracking t e p := by
  refine step_rule fun hi hp hf => ?_
  cases hf
  exact ⟨hp.guard, hp.tracking hi⟩

end Start

theorem System.Follows.handOver (hs : s.Follows t e p) (k : Nat) :
    (s.effect t (.supervise p k)).Follows k e p := by
  obtain ⟨⟨hp, -⟩, hset, hlt, hq⟩ := hs
  exact ⟨⟨hp, by simp [effect, apply, modifyProc]⟩, hset, hlt,
    by simpa [effect, apply, modifyProc] using hq⟩

theorem supervise_spec [Firm t P] (hP : ∀ s, Inv s → P s → s.Follows t e p)
    (hQ : ∀ s k, Inv s → P s → (Op.supervise p k).Guard cfg s t → Q (s.effect t (.supervise p k))) :
    Meets cfg t P (supervise e p) fun _ => Q := by
  refine spawn_rule fun {s n i o a l} hi hp hf => ?_
  cases hf
  have hg : (Op.supervise p n).Guard cfg s t := ⟨e, (hP s hi hp).1⟩
  refine ⟨hg, fun j c hj => ?_, hQ s n hi hp hg⟩
  cases j with
  | zero =>
    cases hj
    exact (hP s hi hp).handOver n
  | succ j => simp at hj

theorem Tracking.supervise_spec : Meets cfg t (Tracking t e p) (supervise e p) fun _ => Locked t e :=
  Vm.supervise_spec (fun _ _ hp => hp.2) fun _ _ hi hp hg =>
    Held.steady _ _ hi (hi.same hg fun hc => hc).steady (hi.later hg) hp.1

theorem record_spec [Firm t P] (hP : ∀ s, P s → s.Alive e) :
    Meets cfg t P (record e) fun r s => P s ∧ s.Reads e r :=
  look_rule fun s _ hp => ⟨hp, hP s hp, rfl, rfl⟩

def System.Cleared (s : System) (t : Nat) (id : String) : Prop :=
  .removeDir id ∈ s.acts t ∨ .host (.removeFailed id) ∈ s.acts t

instance : Lasting fun s => s.Cleared t id where
  later _ _ _ hl hs := hs.imp (hl.acts t _) (hl.acts t _)

theorem detachNetwork_spec [Firm t P] [Held t e P] {id : String}
    (hP : ∀ s, P s → s.serving = true ∧ (s.record e).id = id ∧ s.Yields t e) :
    Meets cfg t P (detachNetwork e name id) fun _ => P := by
  refine .bind (manager_rule (R := fun _ => P) fun _ _ hp => hp) fun n => ?_
  cases n with
  | none => exact .pure'
  | some n =>
    have hg : ∀ s, P s → (Op.net (.detach e n id)).Guard cfg s t := fun s hp => hP s hp
    refine perform_rule (fun s _ hp => hg s hp) fun s hi hp => ?_
    exact Held.steady s _ hi (hi.same (hg s hp) fun hc => hc).steady (hi.later (hg s hp)) hp

theorem removeDir_spec [Firm t P] (hP : ∀ s, P s → s.Releases t id) :
    Meets cfg t P (removeDir id) fun _ s => P s ∧ s.Cleared t id := by
  refine step_rule fun {s i o a} hi hp hf => ?_
  split at hf <;> cases hf
  · have hg : (Op.removeDir id).Guard cfg s t := hP s hp
    refine ⟨hg, Firm.quiet hi hg rfl hp, .inl ?_⟩
    rw [acts_effect, if_pos ⟨rfl, rfl⟩]
    exact mem_cons_self
  · have hg : (Op.host (.removeFailed id)).Guard cfg s t := trivial
    refine ⟨hg, Firm.quiet hi hg rfl hp, .inr ?_⟩
    rw [acts_effect, if_pos ⟨rfl, rfl⟩]
    exact mem_cons_self

def System.Emptied (s : System) (t e : Nat) : Prop := ∃ ks, .release e ks ∈ s.acts t

instance : Lasting fun s => s.Emptied t e where
  later _ _ _ hl hs := by
    obtain ⟨ks, hks⟩ := hs
    exact ⟨ks, hl.acts t _ hks⟩

theorem takeForwards_spec [Firm t P] (hP : ∀ s, P s → s.Vacant t e) :
    Meets cfg t P (takeForwards e) fun _ s => P s ∧ s.Emptied t e := by
  refine step_rule fun {s i o a} hi hp hf => ?_
  cases hf
  have hg : (release e (s.forwards.registered e)).Guard cfg s t := ⟨(hP s hp).2.1, (hP s hp).1, rfl⟩
  refine ⟨hg, Firm.quiet hi hg rfl hp, s.forwards.registered e, ?_⟩
  rw [acts_effect, if_pos ⟨rfl, rfl⟩]
  exact mem_cons_self

theorem closeForwards_spec [Firm t P] {ks : List Nat} :
    Meets cfg t P (closeForwards ks) fun _ => P := by
  induction ks with
  | nil => exact .pure'
  | cons k ks ih => exact .bind (perform_quiet rfl fun _ _ _ => trivial) fun _ => ih

theorem teardown_spec [Firm t P] [Held t e P]
    (hP : ∀ s, P s → s.serving = true ∧ (s.record e).id = id ∧ s.Yields t e) :
    Meets cfg t P (teardown e) fun _ s => P s ∧ s.Cleared t id ∧ s.Emptied t e := by
  refine .bind (look_rule (R := fun r s => P s ∧ r.id = id) fun s _ hp =>
    ⟨hp, (hP s hp).2.1⟩) fun r => ?_
  have hrel : ∀ s, (P s ∧ r.id = id) ∧ s.Emptied t e → s.Releases t r.id := fun s hp =>
    ⟨e, (hP s hp.1.1).2.1.trans hp.1.2.symm, (hP s hp.1.1).2.2⟩
  refine .bind (takeForwards_spec fun s hp => (hP s hp.1).2.2.1) fun ks => ?_
  refine .bind closeForwards_spec fun _ => ?_
  refine .bind (detachNetwork_spec fun s hp =>
    ⟨(hP s hp.1.1).1, (hP s hp.1.1).2.1.trans hp.1.2.symm, (hP s hp.1.1).2.2⟩) fun _ => ?_
  refine .bind (Q := fun _ s => (P s ∧ r.id = id) ∧ s.Emptied t e) ?_ fun _ => ?_
  · refine quiet_rule fun {s i o a} hi hp hf => ?_
    split at hf <;> cases hf <;> exact ⟨hrel s hp, rfl, hp⟩
  · refine .weaken (fun _ => Firm.stable) (fun _ s _ hp => ⟨hp.1.1.1, ?_, hp.1.2⟩)
      (removeDir_spec hrel)
    rw [← hp.1.1.2]
    exact hp.2

theorem not_present_remove (hid : s.Names e id) :
    ¬ (s.effect t (.remove id)).Present e := by
  intro hp
  change GoMap.get (s.vms.erase id) (s.record e).id = some e at hp
  rw [GoMap.get_erase, if_pos hid.2] at hp
  cases hp

theorem System.Yields.removed (hy : s.Yields t e) (hid : s.Names e id) :
    Locked t e (s.effect t (.remove id)) :=
  ⟨hy.1.1, hy.1.2.1, fun q hq => absurd hq (hy.1.2.2.2 q), fun _ => not_present_remove hid⟩

theorem Startable.yields (h : Startable t e .install s) : s.Yields t e := ⟨h.vacant, h.kept, .inr h.ready⟩

theorem discard_spec : Meets cfg t (Startable t e .install) (discard e)
    fun _ => Locked t e := by
  refine .bind (record_spec fun s hp => hp.vacant.2.1) fun r => ?_
  refine .bind (teardown_spec fun s hp =>
    ⟨hp.1.serving rfl, hp.2.2.1, hp.1.yields⟩) fun _ => ?_
  refine .bind (perform_rule (Q := fun s => Locked t e s ∧ s.serving = true)
    (fun s _ hp => ⟨e, hp.1.2.2.1, hp.1.1.yields⟩)
    fun s _ hp => ⟨hp.1.1.yields.removed hp.1.2.names, hp.1.1.serving rfl⟩) fun _ => ?_
  refine .bind (persistNetworks_spec fun s hp => hp.2) fun r => ret_rule fun _ _ hp => ?_
  cases r <;> exact hp.1

def Provisionable (t e n : Nat) (s : System) : Prop := Startable t e .install s ∧ s.Joins e n

instance {n : Nat} : Firm t (Provisionable t e n) :=
  inferInstanceAs (Firm t fun s => Startable t e .install s ∧ s.Joins e n)

theorem provision_spec : MeetsE cfg t (Provisionable t e n)
    (provision e n) (fun _ => Startable t e .install) (Startable t e .install) := by
  have hfile : ∀ (r : VM) s, Provisionable t e n s ∧ s.Reads e r →
      ∃ e, (s.record e).id = r.id ∧ s.Alive e ∧ (s.entries e).opMu = some t ∧ (s.entries e).owner = some t :=
    fun r s hp => ⟨e, hp.2.2.1, hp.1.1.vacant.2.1, hp.1.1.vacant.1, hp.1.1.ready⟩
  refine .bindE (.liftE (record_spec fun s hp => hp.1.vacant.2.1)) fun r => ?_
  refine .bindE (fail_rule (generateSSHKey_spec (hfile r)) fun _ _ hp => hp.1.1) fun pub => ?_
  refine .bindE (fail_rule (writeUserData_spec fun s hp =>
    ⟨hp.1.1.vacant.2.1, hp.1.1.vacant.1, hp.1.1.ready⟩)
    fun _ _ hp => hp.1.1) fun _ => ?_
  refine .bindE (fail_rule (copyVars_spec (hfile r)) fun _ _ hp => hp.1.1) fun _ => ?_
  refine .bindE (fail_rule (createVolume_spec (hfile r)) fun _ _ hp => hp.1.1) fun _ => ?_
  refine .bindE (.liftE (perform_quiet (o := .update e (.volume pub)) rfl fun s _ hp =>
    ⟨hp.1.1.vacant.2.1, hp.1.1.vacant.1, hp.1.1.ready⟩)) fun _ => ?_
  refine .bindE (fail_rule (attachNetwork_rule (e := e)
    (R := fun ip s => Attached t e .install n ip s ∧ s.Reads e r) (fun s _ hp => ?_)
    fun s ip hi hp hg => ?_) fun _ _ hp => hp.1.1) fun ip => ?_
  · exact ⟨.inl hp.1.1.vacant.1, hp.1.2, hp.2.2.1⟩
  · exact ⟨hp.1.1.attached hi hg, Lasting.later (P := fun s => s.Reads e r) s _ hi (hi.later hg) hp.2⟩
  refine .bindE (Q := fun _ => Startable t e .install) (.liftE ?_) fun _ =>
    persistNetworks_spec fun s hp => hp.serving rfl
  refine .weaken (fun _ => Firm.stable) (fun _ _ _ hp => hp.1.startable)
    (perform_quiet rfl fun s _ hp => ⟨hp.2.1, hp.1.startable.vacant.1, hp.1.startable.ready, ⟨n, hp.1.lease⟩, ?_⟩)
  rw [hp.2.2.2]

theorem launch_spec : MeetsE cfg t (fun s => Owned t e s ∧ s.Joins e n)
    (launch e n) (fun _ _ => True) (fun _ => True) := by
  refine .bind (lock_rule (Q := Provisionable t e n) (fun _ _ hp => hp.1.settled)
    fun s hi hp hg => ⟨hp.1.startable hi hg, Firm.quiet (P := fun s => s.Joins e n) hi hg rfl hp.2⟩) fun _ => ?_
  have hstart : MeetsE cfg t (Provisionable t e n) (provisionAndStart e n)
      (fun h => Started t e .install h.qemu) (Startable t e .install) :=
    .bindE provision_spec fun _ => startProcess_spec
  refine .bind hstart fun r => ?_
  have hunlock : ∀ r : Except String Unit, Meets cfg t (Locked t e)
      (do unlock e; pure r) (Post (fun _ _ => True) (fun _ => True)) := fun r =>
    .bind (unlock_rule (Q := fun _ => True) fun _ _ hl => ⟨hl, trivial⟩) fun _ =>
      result_rule r
  cases r with
  | error err => exact .bind discard_spec fun _ => hunlock (.error err)
  | ok h =>
    refine .bind track_spec fun p => ?_
    exact .bind Tracking.supervise_spec fun _ => hunlock (.ok ())

theorem Owned.of_allocate {id machineID : String} (hi : Inv s) (hs : s.serving = true) :
    Owned t s.nextEntry (s.effect t (.allocate id machineID cid spec)) := by
  have he : (s.effect t (.allocate id machineID cid spec)).entries s.nextEntry =
      { record := s.newVM id machineID cid spec, userData := spec.userData, owner := some t } :=
    update_self ..
  have hload : s.loading = none := (hi.loader (hi.serving hs)).2
  refine ⟨by rw [he], ⟨?_, ?_⟩, fun _ => ?_, hs⟩
  · rw [Alive, System.record, he]
    exact hi.serial
  · exact fun hl => by cases hload.symm.trans hl
  · rw [Present, System.record, he]
    exact (GoMap.get_insert ..).trans (if_pos rfl)

theorem System.Called.joins {id machineID : String} (hi : Inv s) (hn : s.Called n spec.network) :
    (s.effect t (.allocate id machineID cid spec)).Joins s.nextEntry n := by
  have hr : (s.effect t (.allocate id machineID cid spec)).record s.nextEntry =
      s.newVM id machineID cid spec := by
    simp [effect, apply, addEntry, System.record]
  refine ⟨?_, ?_⟩
  · rw [Alive, hr]
    exact hi.serial
  · rw [hr]
    exact hn

theorem allocate_spec :
    MeetsE cfg t (fun s => s.serving = true ∧ s.Called n spec.network)
      (allocate cfg spec) (fun e s => Owned t e s ∧ s.Joins e n) (fun _ => True) := by
  refine step_rule fun hi hp hf => ?_
  split at hf
  · cases hf
    exact ⟨trivial, trivial⟩
  rename_i hc
  split at hf
  · cases hf
    exact ⟨trivial, trivial⟩
  split at hf
  · split at hf
    · cases hf
    rename_i hfree
    rw [not_isSome_iff_eq_none] at hfree
    split at hf
    · cases hf
      exact ⟨⟨hp.1, Bool.eq_false_iff.2 hc, hfree, rfl⟩, Owned.of_allocate hi hp.1, hp.2.joins hi⟩
    · rename_i hw
      cases hf
      exact ⟨⟨hp.1, hfree, Bool.eq_false_iff.2 hw⟩, trivial⟩
  · cases hf
    exact ⟨trivial, trivial⟩
  · cases hf

theorem create_spec : MeetsE cfg t (fun s => s.serving = true)
    (create cfg spec) (fun _ _ => True) (fun _ => True) := by
  refine .bindE (fail_rule (result_rule _) fun _ _ _ => trivial) fun _ => ?_
  refine .bindE (fail_rule (result_rule _) fun _ _ _ => trivial) fun x => ?_
  refine .bindE (fail_rule getNetwork_spec fun _ _ _ => trivial) fun n => ?_
  refine .bindE allocate_spec fun e => ?_
  refine .bindE launch_spec fun _ => ?_
  exact .liftE (.goto Firm.stable fun _ _ _ => trivial)

theorem returned_spec [Firm t P] : Meets cfg t P (perform .returned) fun _ => P :=
  perform_quiet rfl fun _ _ _ => trivial

theorem waitFor_spec {w : WaitFor} :
    Meets cfg t (fun _ => True) (waitFor e w) fun _ _ => True := by
  refine .bind (look_rule (R := fun _ _ => True) fun _ _ _ => trivial) fun r => ?_
  refine .ite (fun _ => returned_spec) fun _ => ?_
  refine .bind (quiet_rule (R := fun _ _ => True) fun _ _ hf => ?_) fun again => ?_
  · split at hf <;> cases hf <;> exact ⟨trivial, rfl, trivial⟩
  · exact .ite (fun _ => .goto Firm.stable fun _ _ _ => trivial) fun _ => returned_spec

theorem startBoot_spec : MeetsE cfg t (Startable t e .boot) (startBoot e)
    (fun _ => Locked t e) (Startable t e .boot) := by
  refine .bindE startProcess_spec fun h => ?_
  refine .bindE (.liftE track_spec) fun p => ?_
  exact .liftE Tracking.supervise_spec

theorem Startable.failed_spec {msg : String} : Meets cfg t (Startable t e .boot)
    (perform (.update e (.failed msg))) fun _ => Startable t e .boot :=
  perform_quiet rfl fun _ _ hp => ⟨hp.vacant.2.1, hp.vacant, hp.ready⟩

theorem startInstalled_spec :
    Meets cfg t (Startable t e .boot) (startInstalled e) fun _ => Locked t e := by
  refine .bind startBoot_spec fun r => ?_
  cases r with
  | ok => exact ret_rule fun _ _ hp => hp
  | error err =>
    exact .weaken (fun _ => Firm.stable) (fun _ _ _ hp => hp.locked)
      Startable.failed_spec

def HandOff (t e : Nat) : Bool → System → Prop
  | true => Startable t e .boot
  | false => Locked t e

instance {ok : Bool} : Firm t (HandOff t e ok) := by
  cases ok <;> unfold HandOff <;> infer_instance

theorem boot_spec : Meets cfg t (fun s => s.Settled e ∧ s.Installed e) (boot e)
    fun _ _ => True := by
  refine .bind (lock_rule (Q := fun s => Locked t e s ∧ s.Installed e) (fun _ _ hp => hp.1)
    fun s hi hp hg => ⟨.of_lock hi hg, Firm.quiet (P := fun s => s.Installed e) hi hg rfl hp.2⟩)
    fun _ => ?_
  refine .bind (quiet_rule (R := HandOff t e) fun {s i o ok} hi hp hf => ?_) fun ok => ?_
  · obtain ⟨hl, -, hins⟩ := hp
    split at hf
    · rename_i hst
      have hd : (s.record e).state ≠ .deleting := by rw [hst.1]; simp
      split at hf <;> cases hf
      · rename_i hc
        have hv : s.Vacant t e := ⟨hl.opMu, hl.alive, hst.2, hl.covered.none hst.2⟩
        exact ⟨⟨hl.alive, hv, hst.1, hc⟩, rfl, hl⟩
      · rename_i hc
        exact ⟨trivial, rfl, hl.startable hi hst.2 hd hins (by simpa using hc)⟩
    · cases hf
      exact ⟨trivial, rfl, hl⟩
  have hunlock : Meets cfg t (Locked t e) (unlock e) fun _ _ => True :=
    unlock_rule fun _ _ hl => ⟨hl, trivial⟩
  cases ok with
  | true => exact .bind startInstalled_spec fun _ => hunlock
  | false => exact hunlock

section Follow

structure FollowsBoot (t e p : Nat) (s : System) : Prop where
  follows : s.Follows t e p
  phase : (s.procs p).phase = .boot

instance : Firm t (FollowsBoot t e p) where
  keeps s s' hi hk h :=
    ⟨Firm.keeps (P := fun s => s.Follows t e p) s s' hi hk h.follows,
      (hk.later.proc p h.follows.2.2.1).2.2.1.trans h.phase⟩

structure FollowsEnded (t e p : Nat) (exit : ExitStatus) (s : System) : Prop where
  follows : s.Follows t e p
  ended : (s.qemus (s.procs p).handles.qemu).exit = some exit

instance {exit : ExitStatus} : Firm t (FollowsEnded t e p exit) where
  keeps s s' hi hk h := by
    refine ⟨Firm.keeps (P := fun s => s.Follows t e p) s s' hi hk h.follows, ?_⟩
    rw [(hk.later.proc p h.follows.2.2.1).2.2.2.1]
    exact (hk.later.qemu _ h.follows.2.2.2).2.2.2 exit h.ended

structure EndedIn (t e p : Nat) (exit : ExitStatus) (phase : Phase) (s : System) : Prop where
  ended : FollowsEnded t e p exit s
  phase : (s.procs p).phase = phase

instance {exit : ExitStatus} {phase : Phase} : Firm t (EndedIn t e p exit phase) where
  keeps s s' hi hk h := ⟨Firm.keeps s s' hi hk h.ended, (hk.later.proc p h.ended.follows.2.2.1).2.2.1.trans h.phase⟩

structure EndedAt (t e p : Nat) (exit : ExitStatus) (phase : Phase) (cid : Nat) (s : System) :
    Prop where
  endedIn : EndedIn t e p exit phase s
  cid : (s.record e).cid = cid

instance {exit : ExitStatus} {phase : Phase} {cid : Nat} :
    Firm t (EndedAt t e p exit phase cid) where
  keeps s s' hi hk h := by
    refine ⟨Firm.keeps s s' hi hk h.endedIn, (hk.cid e ?_ (.inr (.inl ?_))).trans h.cid⟩
    · exact h.endedIn.ended.follows.2.1.1
    · rw [h.endedIn.ended.follows.1.1]
      exact nofun

theorem EndedAt.leaves (h : EndedAt t e p exit .boot cid s) :
    s.Leaves t p cid := by
  refine ⟨e, h.endedIn.ended.follows.1, h.endedIn.phase, ?_, h.cid⟩
  rw [h.endedIn.ended.ended]
  simp

theorem unsubscribe_spec :
    Meets cfg t (EndedIn t e p exit phase) (unsubscribe e p phase)
      fun _ => FollowsEnded t e p exit := by
  cases phase with
  | install => exact ret_rule fun _ _ hp => hp.ended
  | boot =>
    refine .bind (look_rule (R := fun r => EndedAt t e p exit .boot r.cid)
      fun _ _ hp => ⟨hp, rfl⟩) fun r => ?_
    exact .weaken (fun _ => Firm.stable) (fun _ _ _ hp => hp.endedIn.ended)
      (perform_quiet rfl fun _ _ hp => hp.leaves)

theorem onTimeout_spec : Meets cfg t (fun s => s.Follows t e p)
    (onTimeout cfg e p c) fun _ s => s.Follows t e p := by
  refine quiet_rule fun _ hp hf => ?_
  split at hf
  · cases hf
    exact ⟨⟨e, hp.1⟩, rfl, hp⟩
  · split at hf <;> cases hf
    · rename_i hph
      exact ⟨⟨hp.2.1.1, ⟨p, hp.1, hph.1⟩, hph.2⟩, rfl, hp⟩
    · exact ⟨trivial, rfl, hp⟩

def AfterExit (e p : Nat) (installed : Bool) (s : System) : Prop :=
  s.Dropped p ∧ s.Settled e ∧ (installed = true → s.Installed e)

instance {installed : Bool} : Lasting (AfterExit e p installed) where
  later s s' hi hl h :=
    ⟨Lasting.later (P := fun s => s.Dropped p) s s' hi hl h.1,
      Lasting.later (P := fun s => s.Settled e) s s' hi hl h.2.1,
      fun hins => Lasting.later (P := fun s => s.Installed e) s s' hi hl (h.2.2 hins)⟩

theorem FollowsEnded.settles {timeout : String} {c : Console} (hi : Inv s)
    (h : FollowsEnded t e p exit s) (hg : (exited e p exit timeout c).Guard cfg s t) :
    AfterExit e p ((s.record e).installerDone (s.procs p).phase (s.procs p).timedOut exit)
      (s.effect t (.exited e p exit timeout c)) := by
  obtain ⟨⟨hp, -⟩, hset, hlt, -⟩ := h.follows
  have he := s.exited_entry t e p exit timeout c
  have hl := hi.later hg
  have hset' := Lasting.later (P := fun s => s.Settled e) s _ hi hl hset
  refine ⟨⟨(hl.proc p hlt).1, fun e' hp' => ?_⟩, hset', fun hins => ⟨hset'.1, ?_⟩⟩
  · have h1 := (((hi.effect hg).entry e').proc p hp').2.1
    rw [(hl.proc p hlt).2.1, ((hi.entry e).proc p hp).2.1] at h1
    subst h1
    rw [he] at hp'
    cases hp'
  · rw [s.exited_record, VM.update, VM.onExit_installedAt, if_pos hins]
    simp

theorem onExit_spec :
    Meets cfg t (FollowsEnded t e p exit) (onExit cfg e p exit c) fun _ _ => True := by
  refine .bind (look_rule (R := fun pr => EndedIn t e p exit pr.phase) fun _ _ hp => ⟨hp, rfl⟩)
    fun pr => ?_
  refine .bind stopTPM_spec fun _ => .bind unsubscribe_spec fun _ => ?_
  refine .bind (step_rule (R := AfterExit e p) fun {s i o a} hi hp hf => ?_) fun installed => ?_
  · cases hf
    have hg : (exited e p exit cfg.installTimeout c).Guard cfg s t := ⟨hp.follows.2.1.1, hp.follows.1, hp.ended⟩
    exact ⟨hg, hp.settles hi hg⟩
  refine .bind (perform_quiet rfl fun _ _ hp => hp.1) fun _ => ?_
  cases installed with
  | true => exact use_rule (fun _ _ hp => ⟨hp.2.1, hp.2.2 rfl⟩) boot_spec
  | false => exact ret_rule fun _ _ _ => trivial

structure Received (t e p : Nat) (n : Notification) (s : System) : Prop where
  follows : FollowsBoot t e p s
  acts : ∃ l, s.acts t = .notify (.receive p n) :: l

theorem Received.stable {n : Notification} : (outline cfg).Stable t (Received t e p n) :=
  fun s s' hi hr h => ⟨Firm.stable (P := FollowsBoot t e p) s s' hi hr h.follows, by
    rw [(Rely.own hr).1]
    exact h.acts⟩

def Woken (t e p : Nat) : Wake → System → Prop
  | .ctxDone => fun _ => True
  | .exited exit _ => FollowsEnded t e p exit
  | .notify n _ => Received t e p n
  | .hungUp | .due _ => fun s => s.Follows t e p

theorem wake_spec (due : Bool) {s : System} {i : Answer} {o : Op} {w : Wake} (hi : Inv s)
    (hp : s.Follows t e p)
    (hf : (match i with
      | .ctxDone => if s.close.cancelled then some (.read, .ctxDone) else none
      | .exited c =>
        (s.qemus (s.procs p).handles.qemu).exit.map fun exit => (.read, Wake.exited exit c)
      | .notify c =>
        if (s.procs p).phase = .install then none
        else match s.notify.front p with
        | some n => some (.notify (.receive p n), .notify n c)
        | none => if s.notify.ended p then some (.notify (.hangUp p), .hungUp) else none
      | .due c => if due then some (.read, .due c) else none
      | _ => none) = some (o, w)) :
    o.Guard cfg s t ∧ Woken t e p w (s.effect t o) := by
  have hkeep : ∀ {o : Op}, o.Guard cfg s t → o.quiet = true → (s.effect t o).Follows t e p :=
    fun hg hq => Firm.quiet (P := fun s => s.Follows t e p) hi hg hq hp
  split at hf
  · split at hf <;> cases hf
    exact ⟨trivial, trivial⟩
  · obtain ⟨exit, hx, hf⟩ := map_eq_some_iff.1 hf
    cases hf
    exact ⟨trivial, hkeep trivial rfl, hx⟩
  · split at hf
    · cases hf
    rename_i hph
    have hph : (s.procs p).phase = .boot := by
      cases hx : (s.procs p).phase with
      | install => exact absurd hx hph
      | boot => rfl
    split at hf
    · rename_i n hn
      cases hf
      have hg : (Op.notify (.receive p n)).Guard cfg s t := ⟨hn, e, hp.1⟩
      refine ⟨hg, Firm.quiet (P := FollowsBoot t e p) hi hg rfl ⟨hp, hph⟩, s.acts t, ?_⟩
      rw [acts_effect, if_pos ⟨rfl, rfl⟩]
    · split at hf <;> cases hf
      have hg : (Op.notify (.hangUp p)).Guard cfg s t := ⟨‹_›, e, hp.1⟩
      exact ⟨hg, hkeep hg rfl⟩
  · split at hf <;> cases hf
    exact ⟨trivial, hkeep trivial rfl⟩
  · cases hf

theorem run_spec {due : Bool} : Meets cfg t (fun s => s.Follows t e p)
    (run cfg e p due) fun _ _ => True := by
  refine .bind (step_rule (R := Woken t e p) fun hi hp hf =>
    wake_spec due hi hp hf) fun w => ?_
  have hend : Meets cfg t (fun _ => True) (perform (.shutdown .superviseEnd))
      fun _ _ => True := perform_quiet rfl fun _ _ _ => trivial
  cases w with
  | ctxDone => exact hend
  | exited exit c => exact .bind onExit_spec fun _ => hend
  | notify n c =>
    refine .bind (Q := fun _ s => s.Follows t e p) ?_ fun _ => ?_
    · refine stable_step Received.stable fun {s i o a} hi hp hf => ?_
      cases hf
      have hb := hp.follows
      have hg : (Op.update e (.notified n c)).Guard cfg s t := ⟨hb.follows.2.1.1, p, hb.follows.1, hb.phase, hp.acts⟩
      exact ⟨hg, Firm.quiet (P := fun s => s.Follows t e p) hi hg rfl hb.follows⟩
    · exact .goto Firm.stable fun _ _ hp => hp
  | hungUp =>
    exact .goto (Firm.stable (P := fun s => s.Follows t e p)) fun _ _ hp => hp
  | due c =>
    exact .bind onTimeout_spec fun _ => .goto Firm.stable fun _ _ hp => hp

end Follow

theorem openVolume_spec [Firm t P] (hP : ∀ s, Inv s → P s → s.Alive e) :
    MeetsE cfg t P (openVolume e) (fun _ => P) P := by
  refine .bindE (.liftE (look_rule (R := fun _ => P) fun _ _ hp => hp)) fun isOpen => ?_
  refine .ite (fun _ => .pureE) fun _ => ?_
  refine .bindE (.liftE (look_rule (R := fun _ => P) fun _ _ hp => hp)) fun r => ?_
  refine .bindE acquireVolume_spec fun _ => ?_
  exact .liftE (perform_quiet rfl hP)

theorem startCheck_spec : MeetsE cfg t (Locked t e) (startCheck id e)
    (fun _ => Startable t e .boot) (Locked t e) := by
  refine look_rule fun s hi hl => ?_
  split
  · exact hl
  rename_i hc
  split
  · exact hl
  rename_i hd
  split
  · exact hl
  rename_i hp
  split
  · exact hl
  rename_i hins
  exact hl.startable hi (by simpa using hp) hd hins (by simpa using hc)

theorem startLocked_spec : MeetsE cfg t (Locked t e) (startLocked id e)
    (fun _ => Locked t e) (Locked t e) := by
  refine .bindE startCheck_spec fun _ => ?_
  refine .bindE (fail_rule (openVolume_spec fun _ _ hp => hp.vacant.2.1)
    fun _ _ hp => hp.locked) fun _ => ?_
  refine .bindE (.liftE startBoot_spec) fun r => ?_
  cases r with
  | ok => exact retE_rule fun _ _ hp => hp
  | error err =>
    exact .bindE (.liftE Startable.failed_spec) fun _ =>
      throw_rule fun _ _ hp => hp.locked

theorem lookupEntry_spec [Firm t P] : MeetsE cfg t P (lookupEntry id)
    (fun e s => P s ∧ s.Names e id) P := by
  refine look_rule fun s hi hp => ?_
  split
  · rename_i e he
    exact ⟨hp, hi.vms id e he⟩
  · exact hp

theorem locked_spec {x : Nat → GoE Unit} (hx : ∀ e, MeetsE cfg t
    (fun s => Locked t e s ∧ s.Names e id ∧ s.serving = true) (x e) (fun _ => Locked t e) (Locked t e)) :
    MeetsE cfg t (fun s => s.serving = true)
      (do let e ← lookupEntry id; lock e; let r ← ExceptT.lift (x e).run; unlock e; ExceptT.mk (pure r))
      (fun _ _ => True) (fun _ => True) := by
  refine .bindE (fail_rule lookupEntry_spec fun _ _ _ => trivial) fun e => ?_
  refine .bindE (.liftE (lock_rule (Q := fun s => Locked t e s ∧ s.Names e id ∧ s.serving = true)
    (fun _ hi hp => settled_of_serving hi hp.1 hp.2.1) fun s hi hp hg =>
      ⟨Locked.of_lock hi hg, Firm.quiet (P := fun s => s.Names e id) hi hg rfl hp.2, hp.1⟩)) fun _ => ?_
  refine .bindE (.liftE (hx e)) fun r => ?_
  refine .bindE (.liftE (unlock_rule (Q := fun _ => True) fun s _ hp => ?_)) fun _ => ?_
  · cases r <;> exact ⟨hp, trivial⟩
  · exact result_rule r

theorem start_spec : MeetsE cfg t (fun s => s.serving = true) (start id) (fun _ _ => True) (fun _ => True) :=
  locked_spec fun _ => use_rule (fun _ _ hp => hp.1) startLocked_spec

theorem awaitExit_spec [Firm t P] :
    MeetsE cfg t P (awaitExit p) (fun _ => P) P := by
  refine keep_rule fun _ _ hf => ?_
  split at hf
  · obtain ⟨_, _, hf⟩ := map_eq_some_iff.1 hf
    cases hf
    exact ⟨trivial, rfl⟩
  · cases hf
    exact ⟨trivial, rfl⟩
  · cases hf

theorem stopProcess_spec [Firm t P] [Firm t Q] (h : ∀ s, Inv s → P s → (s.procs p).done = true → Q s) :
    Meets cfg t P (stopProcess p) fun _ => Q := by
  refine .bind (Q := fun _ => P) ?_ fun _ => quiet_rule fun {s i o a} hi hp hf => ?_
  · refine .bind awaitExit_spec fun r => ?_
    cases r with
    | ok => exact ret_rule fun _ _ hp => hp
    | error =>
      refine .bind awaitExit_spec fun r => ret_rule fun _ _ hp => ?_
      cases r <;> exact hp
  · split at hf <;> cases hf
    exact ⟨trivial, rfl, h s hi hp ‹_›⟩

/-- Stop, with what is known after the lookup (`L`), after its critical section (`R`) and at the
end. -/
theorem stop_rule {L R : Nat → System → Prop} [Firm t P] [∀ e, Firm t (L e)] [∀ p, Firm t (R p)]
    [Firm t Q] (hnone : ∀ s, Inv s → P s → s.vms.get id = none → Q s)
    (hsome : ∀ s e, Inv s → P s → s.vms.get id = some e → L e s) (halive : ∀ s e, L e s → s.Alive e)
    (hidle : ∀ s e, Inv s → L e s → (s.record e).state = .deleting ∨ (s.entries e).proc = none → Q s)
    (hproc : ∀ s e p, Inv s → L e s → (s.entries e).proc = some p → R p s)
    (hdone : ∀ s p, Inv s → R p s → (s.procs p).done = true → Q s) :
    MeetsE cfg t P (stop id) (fun _ => Q) Q := by
  refine .bindE (look_rule (R := Post L Q) fun s hi hp => ?_) fun e => ?_
  · split
    · exact hsome s _ hi hp ‹_›
    · exact hnone s hi hp ‹_›
  refine .bindE (quiet_rule (R := Post R Q) fun {s i o a} hi hp hf => ?_) fun p => ?_
  · split at hf
    · cases hf
      exact ⟨trivial, rfl, hidle s e hi hp (.inl ‹_›)⟩
    rename_i hd
    split at hf <;> cases hf
    · exact ⟨trivial, rfl, hidle s e hi hp (.inr ‹_›)⟩
    · rename_i p hpr
      exact ⟨⟨halive s e hp, by rw [hpr]; simp, hd⟩, rfl, hproc s e p hi hp hpr⟩
  · exact .liftE (stopProcess_spec fun s hi hp hd => hdone s p hi hp hd)

theorem stop_spec [Firm t P] : MeetsE cfg t P (stop id) (fun _ => P) P :=
  stop_rule (L := fun e s => P s ∧ s.Alive e) (R := fun _ => P) (fun _ _ hp _ => hp)
    (fun _ _ hi hp he => ⟨hp, (hi.vms _ _ he).1⟩) (fun _ _ hl => hl.2) (fun _ _ _ hl _ => hl.1)
    (fun _ _ _ _ hl _ => hl.1) fun _ _ _ hp _ => hp

theorem reboot_spec : MeetsE cfg t (fun s => s.serving = true)
    (reboot id) (fun _ _ => True) (fun _ => True) :=
  .bindE (fail_rule stop_spec fun _ _ _ => trivial) fun _ => start_spec

section Delete

structure Removed (t e : Nat) (s : System) : Prop where
  locked : Locked t e s
  vacant : s.Vacant t e
  deleting : (s.record e).state = .deleting
  serving : s.serving = true

instance : Held t e (Removed t e) where
  opMu _ h := h.locked.opMu
  steady s s' hi hs hl h :=
    ⟨Held.steady s s' hi hs hl h.locked, hs.vacant hl h.vacant, hs.deleting.2 h.deleting, hl.serving h.serving⟩

instance : Firm t (Removed t e) := Held.firm

theorem Locked.deletes (hi : Inv s) (hl : Locked t e s) (hd : (s.record e).state ≠ .deleting)
    (hserv : s.serving = true) :
    Deleting t e (s.entries e).proc (s.effect t (.update e .deleting)) := by
  have he := s.update_entry t e .deleting
  have hr := s.update_record t e .deleting
  refine ⟨by rw [he]; exact hl.opMu, ?_, fun q hq => ?_, by rw [hr]; rfl, fun ho => ?_, .inl (by rw [he]), hserv⟩
  · rw [Alive, hr, VM.update_serial]
    exact hl.alive
  · obtain ⟨p, hp, hpq⟩ := hl.covered q ⟨hl.alive, hq.2⟩
    exact ⟨p, by rw [he]; exact hp, hpq⟩
  · obtain ⟨ho, hown⟩ := Bool.or_eq_false_iff.1 ho
    rw [Present, hr, VM.update_id]
    by_contra hn
    rcases ((hi.entry e).gone ho hl.alive hn).2.2 with hx | hx
    · exact hd hx
    · cases hown' : (s.entries e).owner with
      | none => exact hx hown'
      | some t' => simp [Update.deletes, hown'] at hown

theorem deleteCheck_spec :
    MeetsE cfg t (fun s => Locked t e s ∧ s.Names e id ∧ s.serving = true)
      (deleteCheck id e) (fun p s => Deleting t e p s ∧ s.Names e id) (Locked t e) := by
  refine step_rule fun {s i o a} hi hp hf => ?_
  obtain ⟨hl, hid, hserv⟩ := hp
  have hg : read.Guard cfg s t := trivial
  have hread : Locked t e (s.effect t .read) := Firm.quiet hi hg rfl hl
  split at hf
  · cases hf
    exact ⟨trivial, hread⟩
  split at hf <;> cases hf
  · exact ⟨trivial, hread⟩
  · rename_i hd
    have hg : (Op.update e .deleting).Guard cfg s t := ⟨hl.alive, hl.opMu, hd, hserv⟩
    exact ⟨hg, hl.deletes hi hd hserv, Lasting.later (P := fun s => s.Names e id) s _ hi (hi.later hg) hid⟩

theorem stopIfRunning_spec {proc : Option Nat} :
    Meets cfg t (fun s => Deleting t e proc s ∧ s.Names e id) (stopIfRunning proc)
      fun _ s => Deleting t e none s ∧ s.Names e id := by
  cases proc with
  | none => exact ret_rule fun _ _ hp => hp
  | some p =>
    refine stopProcess_spec fun s hi hp hdone => ⟨{ hp.1 with proc := .inr ?_ }, hp.2⟩
    rcases hp.1.proc with hx | hx
    · cases ((hi.entry e).proc p hx).2.2.symm.trans hdone
    · exact hx

theorem Deleting.yields (h : Deleting t e none s) : s.Yields t e := ⟨h.vacant, h.kept, .inl h.deleting⟩

theorem Deleting.removed (h : Deleting t e none s) (hid : s.Names e id) :
    Removed t e (s.effect t (.remove id)) :=
  ⟨h.yields.removed hid, h.vacant, h.deleting, h.serving⟩

structure Forgetting (t e : Nat) (id : String) (done : List Op) (s : System) : Prop where
  removed : Removed t e s
  names : s.Names e id
  cleared : s.Cleared t id
  emptied : s.Emptied t e
  done : ∀ o ∈ done, o ∈ s.acts t

instance : Firm t (Forgetting t e id done) where
  keeps s s' hi hk h := {
    removed := Firm.keeps s s' hi hk h.removed
    names := Firm.keeps (P := fun s => s.Names e id) s s' hi hk h.names
    cleared := Firm.keeps (P := fun s => s.Cleared t id) s s' hi hk h.cleared
    emptied := Firm.keeps (P := fun s => s.Emptied t e) s s' hi hk h.emptied
    done := fun o ho => hk.later.acts t o (h.done o ho) }

theorem Forgetting.forsakes (h : Forgetting t e id done s) : s.Forsakes t id :=
  ⟨e, h.names.2, h.removed.vacant, h.removed.deleting, h.removed.locked.gone h.removed.deleting⟩

theorem Forgetting.forget_spec {o : Op} (hq : o.quiet = true)
    (hr : o.isRead = false) (hg : ∀ s : System, s.Forsakes t id → o.Guard cfg s t) :
    Meets cfg t (Forgetting t e id done) (perform o) fun _ =>
      Forgetting t e id (o :: done) := by
  refine perform_rule (fun s _ hp => hg s hp.forsakes) fun s hi hp => ?_
  have hkeep := Firm.quiet hi (hg s hp.forsakes) hq hp
  refine { hkeep with done := fun o' ho' => ?_ }
  rcases mem_cons.1 ho' with rfl | ho'
  · rw [acts_effect, if_pos ⟨rfl, hr⟩]
    exact mem_cons_self
  · exact hkeep.done o' ho'

theorem deleteLocked_spec :
    MeetsE cfg t (fun s => Locked t e s ∧ s.Names e id ∧ s.serving = true)
      (deleteLocked id e) (fun _ => Locked t e) (Locked t e) := by
  refine .bindE deleteCheck_spec fun proc => ?_
  refine .bindE (.liftE stopIfRunning_spec) fun _ => ?_
  refine .bindE (.liftE (teardown_spec fun s hp =>
    ⟨hp.1.serving, hp.2.2, hp.1.yields⟩)) fun _ => ?_
  refine .bindE (.liftE (perform_rule (Q := Forgetting t e id [])
    (fun s _ hp => hp.1.1.yields.releases hp.1.2) fun s hi hp => ?_)) fun _ => ?_
  · have hg : (remove id).Guard cfg s t := hp.1.1.yields.releases hp.1.2
    have hl := hi.later hg
    exact {
      removed := hp.1.1.removed hp.1.2
      names := hp.1.2
      cleared := Lasting.later (P := fun s => s.Cleared t id) s _ hi hl hp.2.1
      emptied := Lasting.later (P := fun s => s.Emptied t e) s _ hi hl hp.2.2
      done := fun _ ho => absurd ho not_mem_nil }
  refine .bindE (.liftE (Forgetting.forget_spec rfl rfl
    fun _ h => h)) fun _ => ?_
  refine .bindE (.liftE (Forgetting.forget_spec rfl rfl
    fun _ h => h)) fun _ => ?_
  refine .bindE (Q := fun _ => Forgetting t e id (forgets id)) (.liftE
    (Forgetting.forget_spec rfl rfl fun _ h => h)) fun _ => ?_
  refine .bindE (.liftE (persistNetworks_spec fun s hp => hp.removed.serving)) fun r => ?_
  refine .bindE (Q := fun _ => Locked t e) (.liftE ?_) fun _ => result_rule r
  have hrem : ∀ s, Post (fun _ => Forgetting t e id (forgets id))
      (Forgetting t e id (forgets id)) r s → Forgetting t e id (forgets id) s :=
    fun s hp => by cases r <;> exact hp
  exact .weaken (fun _ => Firm.stable) (fun _ s _ hp => (hrem s hp).removed.locked)
    (perform_quiet rfl fun s _ hp => ⟨(hrem s hp).removed.vacant, (hrem s hp).removed.deleting,
      (hrem s hp).names.2, (hrem s hp).cleared, (hrem s hp).done, (hrem s hp).emptied⟩)

theorem delete_spec : MeetsE cfg t (fun s => s.serving = true) (delete id) (fun _ _ => True) (fun _ => True) :=
  locked_spec fun _ => deleteLocked_spec

end Delete

end VmManager.Vm
