import VmManager.Vm.Release
import VmManager.Vm.Shutdown

/-! The states of a VM and the table of transitions in the package documentation. A critical section moves
a record only as the table says, with three exceptions: a Start that fails leaves a stopped VM failed, a
Create that Delete has overtaken starts its installer on a deleting record, and a guest may report that it
is ready without having been attested. -/
namespace VmManager.Vm
open Encoding Attest Interleaving Vm.System Option VM
variable {cfg : Config} {s s' : System} {t e : Nat} {op : Op} {K : System → Event → Prop}
  {pool : Pool} {ev : Event} {c : Console}

inductive Cause where
  | installerStarted | installerDone | installerFailed | closedBeforeBoot | firstNonce
  | ready | readyReleased | bootTimeout | stopRequested | processExited | exitedZero | exitedNonZero
  | bootFailed | startRequested | deleteRequested

def State.Live (st : State) : Prop := st.live = true ∧ st ≠ .stopping

inductive Transition : State → State → Cause → Prop where
  | created : Transition .creating .installing .installerStarted
  | installed : Transition .installing .booting .installerDone
  | uninstalled : Transition .installing .failed .installerFailed
  | closed : Transition .installing .stopped .closedBeforeBoot
  | asked : Transition .booting .attesting .firstNonce
  | ready : Transition .booting .ready .ready
  | attested : Transition .attesting .ready .readyReleased
  | overdue {st : State} (h : st = .booting ∨ st = .attesting) : Transition st .running .bootTimeout
  | late : Transition .running .ready .ready
  | stopping {st : State} (h : st.Live) : Transition st .stopping .stopRequested
  | stopped : Transition .stopping .stopped .processExited
  | shutDown {st : State} (h : st.Live) : Transition st .stopped .exitedZero
  | crashed {st : State} (h : st.Live) : Transition st .failed .exitedNonZero
  | unbooted {st : State} (h : st.Live) : Transition st .failed .bootFailed
  | started {st : State} (h : st = .stopped ∨ st = .failed) : Transition st .booting .startRequested
  | deleted {st : State} : Transition st .deleting .deleteRequested

/-- The critical section of the service a cause stands for, and what it says of the VM. -/
def Op.Causes (s : System) (e : Nat) (op : Op) : Cause → Prop
  | .installerStarted => ∃ h, op = .track e .install h
  | .installerDone | .startRequested =>
    (∃ h, op = .track e .boot h) ∧ (s.record e).installedAt ≠ none
  | .installerFailed => ∃ p exit timeout c, op = .exited e p exit timeout c ∧
      (s.procs p).phase = .install ∧ (exit.code ≠ 0 ∨ (s.procs p).timedOut = true)
  | .closedBeforeBoot => op = .update e .handoffClosed ∧ s.closing = true ∧ (s.record e).installedAt ≠ none
  | .firstNonce => op = .update e .nonceIssued ∧ (s.record e).attestation.required = true ∧
      (s.record e).attestation.nonceIssuedAt = none
  | .ready => ∃ n c, op = .update e (.notified n c) ∧ n.ready = true
  | .readyReleased => (∃ n c, op = .update e (.notified n c) ∧ n.ready = true) ∧
      (s.record e).attestation.userDataReleased = true
  | .bootTimeout => ∃ timeout c, op = .update e (.overdue timeout c)
  | .stopRequested => op = .update e .stopping
  | .processExited => ∃ p exit timeout c, op = .exited e p exit timeout c
  | .exitedZero => ∃ p exit timeout c, op = .exited e p exit timeout c ∧ exit.code = 0
  | .exitedNonZero => ∃ p exit timeout c, op = .exited e p exit timeout c ∧ exit.code ≠ 0
  | .bootFailed => ∃ msg, op = .update e (.failed msg)
  | .deleteRequested => op = .update e .deleting

structure VM.Dated (r : VM) : Prop where
  creating : r.state = .creating → r.installedAt = none
  booting : r.state = .booting → r.attestation.required = true → r.attestation.nonceIssuedAt = none

namespace VM.Dated
variable {r : VM} {now : Nat}

theorem of_state (h : r.state ≠ .creating ∧ r.state ≠ .booting) : r.Dated :=
  ⟨fun hs => absurd hs h.1, fun hs => absurd hs h.2⟩

theorem onNotify (h : r.Dated) (n : Notification) (c : Console) : (r.onNotify now n c).Dated := by
  unfold VM.onNotify
  dsimp only
  split <;> split
  · exact of_state (by simp)
  · exact h
  · exact of_state (by simp)
  · exact ⟨h.creating, h.booting⟩

theorem onNonce (h : r.Dated) : (r.onNonce now).Dated := by
  unfold VM.onNonce
  dsimp only
  split
  · exact of_state (by simp)
  · rename_i hnot
    refine ⟨h.creating, fun hstate hreq => absurd ⟨hreq, hstate⟩ hnot⟩

theorem update (h : r.Dated) (u : Update) : (r.update now u).Dated := by
  cases u with
  | volume | leased | reassigned | resaved => exact ⟨h.creating, h.booting⟩
  | installing | failed | handoffClosed | stopping | deleting | reattachFailed | overdue =>
    exact of_state (by simp [VM.update])
  | booting => exact ⟨by rintro ⟨⟩, fun _ _ => rfl⟩
  | quoteRecorded stage q c => cases stage <;> exact ⟨h.creating, h.booting⟩
  | notified n c => exact h.onNotify n c
  | nonceIssued => exact h.onNonce
  | exited phase timedOut exit timeout c =>
    rcases r.onExit_cases now phase timedOut exit timeout c with ⟨hs, he⟩ | ⟨hs, he⟩ | ⟨hs, he | he⟩ <;>
      exact of_state (by simp [VM.update, he, hs])

theorem loaded (h : r.Dated) : r.loaded.Dated := by
  unfold VM.loaded
  split
  · exact of_state (by simp)
  · exact h

end VM.Dated

theorem Runs.dated (h : Runs cfg K pool) : pool.shared.Records Dated :=
  Runs.invariant (I := fun s => s.Records Dated) Records.initial
    (fun _ _ _ hi hr hg _ => hr.effect hi hg (fun _ _ _ _ _ => ⟨fun _ => rfl, nofun⟩)
      (fun _ hd => hd.loaded) fun _ u _ _ hd => hd.update u)
    (fun _ _ _ _ _ hr _ hx => hr.outside hx) h

namespace VM
variable (r : VM) (now : Nat)

theorem onNonce_moves (h : (r.onNonce now).state ≠ r.state) : r.attestation.required = true ∧
    r.state = .booting ∧ (r.onNonce now).state = .attesting := by
  unfold onNonce at h ⊢
  dsimp only at h ⊢
  split at h
  · rename_i hb
    rw [if_pos hb]
    exact ⟨hb.1, hb.2, rfl⟩
  · exact absurd rfl h

theorem onNotify_moves {n : Notification} (h : (r.onNotify now n c).state ≠ r.state) :
    n.ready = true ∧ (r.state = .booting ∨ r.state = .attesting ∨ r.state = .running) ∧
      (r.onNotify now n c).state = .ready := by
  have hready : n.ready = true := by
    by_contra hn
    unfold onNotify at h
    simp only [hn, false_and, if_false] at h
    split at h
    · exact h rfl
    · exact h rfl
  exact ⟨hready, (r.onNotify_state now n c).resolve_left h⟩

end VM

def VM.AtRest (r : VM) : Prop := r.state.live = false ∨ (r.state = .installing ∧ r.installedAt ≠ none)

theorem VM.onExit_atRest (r : VM) (now : Nat) (phase : Phase) (timedOut : Bool) (exit : ExitStatus)
    (timeout : String) (c : Console) : (r.onExit now phase timedOut exit timeout c).AtRest := by
  rcases r.onExit_cases now phase timedOut exit timeout c with ⟨hs, he⟩ | ⟨hs, he⟩ | ⟨hs, he | he⟩ <;>
    simp [VM.AtRest, State.live, he, hs]

def System.Rests (s : System) (e : Nat) : Prop :=
  s.Alive e → (s.entries e).proc = none → s.loading ≠ some e → (s.record e).AtRest

theorem Update.Guard.atRest {u : Update} (hg : u.Guard s t e) (hp : (s.entries e).proc = none)
    (hr : s.loading ≠ some e → (s.record e).AtRest) (hl : u.endsLoading = false → s.loading ≠ some e) :
    ((s.record e).update s.clock u).AtRest := by
  have hsup : ∀ {P : Nat → Prop}, (∃ p, s.Supervises t e p ∧ P p) → False := by
    intro P h
    obtain ⟨p, hs, -⟩ := h
    cases hp.symm.trans hs.1
  cases u with
  | installing | booting | exited => exact hg.elim
  | failed | handoffClosed | deleting | reattachFailed => exact .inl rfl
  | stopping => exact absurd hp hg.1
  | overdue => exact (hsup hg.1).elim
  | notified => exact (hsup hg).elim
  | volume | leased | reassigned | quoteRecorded | resaved => exact hr (hl rfl)
  | nonceIssued =>
    have hrest := hr (hl rfl)
    have hstate : ((s.record e).onNonce s.clock).state = (s.record e).state := by
      rcases (s.record e).onNonce_state s.clock with hsame | ⟨hb, -⟩
      · exact hsame
      · rw [AtRest, hb] at hrest
        rcases hrest with hrest | ⟨hrest, -⟩ <;> cases hrest
    rw [AtRest, VM.update, hstate, ((s.record e).onNonce_same s.clock).installedAt]
    exact hrest

theorem Inv.loading_stays (hg : op.Guard cfg s t) (hc : ¬ op.Concerns s e) (hl : s.loading = some e) :
    (s.effect t op).loading = some e := by
  rcases Inv.loading_kept hg hl with hkept | ⟨err, rfl⟩ | ⟨phase, h, rfl⟩
  · exact hkept
  · exact absurd rfl hc
  · exact absurd rfl hc

theorem Inv.rests_effect (hi : Inv s) (hg : op.Guard cfg s t) (h : s.Rests e) :
    (s.effect t op).Rests e := by
  intro ha hp hl
  rcases hi.alive_of_effect hg ha with hold | ⟨hadd, rfl⟩
  swap
  · rcases Inv.record_added (s := s) (t := t) op hadd with ⟨id, m, cid, spec, rfl, hrec⟩ | ⟨id, r, rfl, hrec⟩
    · rw [hrec]
      exact .inl rfl
    · rw [hrec]
      by_contra hlive
      rw [AtRest, not_or, Bool.not_eq_false] at hlive
      exact hl (if_pos hlive.1)
  by_cases hc : op.Concerns s e
  swap
  · have hs := hi.same hg hc
    rw [hs.record]
    exact h hold (hs.proc ▸ hp) fun hloading => hl (Inv.loading_stays hg hc hloading)
  cases op with
  | lock e' | unlock e' =>
    cases hc
    rw [show (s.effect t _).record e = s.record e by
      simp [System.effect, System.apply, modifyEntry, System.record]]
    exact h hold (by simpa [System.effect, System.apply, modifyEntry] using hp) hl
  | update e' u =>
    cases hc
    rw [update_entry] at hp
    rw [update_record]
    refine hg.2.atRest hp (h hold hp) fun hends hloading => hl ?_
    change (if u.endsLoading then none else s.loading) = some e
    rw [hends]
    exact hloading
  | track e' phase hs =>
    cases hc
    rw [track_entry] at hp
    cases hp
  | reattach e' phase hs =>
    cases hc
    simp [System.effect, System.apply, addProc] at hp
  | exited e' p exit timeout c =>
    cases hc
    rw [exited_record]
    exact onExit_atRest ..
  | allocate | loadEntry =>
    cases hc
    exact absurd hold hi.not_alive_next
  | remove | runtimeStart => exact h hold hp hl
  | _ => exact hc.elim

theorem Runs.rests (h : Runs cfg K pool) (e : Nat) : pool.shared.Rests e := by
  refine Runs.invariant (I := fun s => s.Rests e) (fun ha => absurd rfl ha)
    (fun _ _ _ hi hr hg _ => hi.rests_effect hg hr) (fun s x n s' _ hr _ hx => ?_) h
  rcases outside_split hx with _ | _
  · exact fun ha => absurd rfl ha
  · exact hr

/-- A failed boot does not find the VM stopped, no installer is started for a VM that is being deleted,
and a VM that reports ready while it is being attested has its user-data released. -/
def FollowsTable (s : System) : Event → Prop
  | .op _ (.update e (.failed _)) => (s.record e).state ≠ .stopped
  | .op _ (.track e .install _) => (s.record e).state ≠ .deleting
  | .op _ (.update e (.notified n _)) => n.ready = true → (s.record e).state = .attesting →
      (s.record e).attestation.userDataReleased = true
  | _ => True

structure System.Known (s : System) (e : Nat) : Prop where
  serving : s.serving = true
  dated : (s.record e).Dated
  handled : s.Handled e
  rests : (s.entries e).proc = none → (s.record e).AtRest

namespace System.Known

theorem bootable (h : s.Known e) (hp : (s.entries e).proc = none) (hr : s.Ready t e .boot) :
    (s.record e).state = .installing ∨ (s.record e).state = .stopped ∨ (s.record e).state = .failed := by
  obtain ⟨-, hinstalled, hdeleting⟩ := hr
  have hcreating : (s.record e).state ≠ .creating := fun hc => hinstalled (h.dated.creating hc)
  rcases h.rests hp with hlive | ⟨hinst, -⟩
  · cases hst : (s.record e).state with
    | creating => exact absurd hst hcreating
    | deleting => exact absurd hst hdeleting
    | stopped => exact .inr (.inl rfl)
    | failed => exact .inr (.inr rfl)
    | _ =>
      rw [hst] at hlive
      cases hlive
  · exact .inl hinst

theorem live (h : s.Known e) (hp : (s.entries e).proc ≠ none) (hd : (s.record e).state ≠ .deleting)
    (hne : (s.record e).state ≠ .stopping) : (s.record e).state.Live := by
  obtain ⟨p, hp⟩ := ne_none_iff_exists'.1 hp
  exact ⟨((h.handled p hp).1).resolve_right hd, hne⟩

variable {u : Update} {st : State}

theorem update_listed (h : s.Known e) (hi : Inv s) (hg : (Op.update e u).Guard cfg s t)
    (hk : FollowsTable s (.op t (.update e u)))
    (hst : ((s.record e).update s.clock u).state = st) (hne : st ≠ (s.record e).state) :
    ∃ cause, Transition (s.record e).state st cause ∧ (Op.update e u).Causes s e cause := by
  cases u with
  | volume | leased | reassigned | quoteRecorded | resaved => exact absurd hst.symm hne
  | installing | booting | exited => exact hg.2.elim
  | failed msg =>
    subst hst
    rcases h.bootable hg.2.1.2.2.1 hg.2.2 with hs | hs | hs
    · exact ⟨_, .unbooted (by rw [hs]; exact ⟨rfl, nofun⟩), msg, rfl⟩
    · exact absurd hs hk
    · exact absurd hs.symm hne
  | handoffClosed =>
    subst hst
    obtain ⟨-, hvacant, hs, hclosing⟩ := hg
    have hinstalled : (s.record e).installedAt ≠ none := by
      rcases h.rests hvacant.2.2.1 with hlive | hinst
      · rw [hs] at hlive
        cases hlive
      · exact hinst.2
    rw [hs]
    exact ⟨_, .closed, rfl, hclosing, hinstalled⟩
  | stopping =>
    subst hst
    exact ⟨_, .stopping (h.live hg.2.1 hg.2.2 hne.symm), rfl⟩
  | overdue timeout c =>
    subst hst
    exact ⟨_, .overdue hg.2.2, timeout, c, rfl⟩
  | deleting =>
    subst hst
    exact ⟨_, .deleted, rfl⟩
  | reattachFailed => cases (hi.serving h.serving).symm.trans hg.2.1
  | nonceIssued =>
    obtain ⟨hrequired, hbooting, hattesting⟩ := onNonce_moves _ _ (hst.trans_ne hne)
    obtain rfl : st = .attesting := hst.symm.trans hattesting
    rw [hbooting]
    exact ⟨_, .asked, rfl, hrequired, h.dated.booting hbooting hrequired⟩
  | notified n c =>
    obtain ⟨hready, hbefore, hafter⟩ := onNotify_moves _ _ (hst.trans_ne hne)
    obtain rfl : st = .ready := hst.symm.trans hafter
    rcases hbefore with hs | hs | hs
    · rw [hs]
      exact ⟨_, .ready, n, c, rfl, hready⟩
    · have hreleased := hk hready hs
      rw [hs]
      exact ⟨_, .attested, ⟨n, c, rfl, hready⟩, hreleased⟩
    · rw [hs]
      exact ⟨_, .late, n, c, rfl, hready⟩

theorem track_listed (h : s.Known e) (hi : Inv s) {phase : Phase} {hs : Processes}
    (hg : (Op.track e phase hs).Guard cfg s t) (hk : FollowsTable s (.op t (.track e phase hs)))
    (hst : ((s.record e).update s.clock (.started phase hs)).state = st) :
    ∃ cause, Transition (s.record e).state st cause ∧ (Op.track e phase hs).Causes s e cause := by
  obtain ⟨-, -, hp, -, hready, -⟩ := hg
  subst hst
  cases phase with
  | install =>
    rcases ((hi.entry e).owner t hready).2.2 with hcreating | ⟨hdeleting, -⟩
    · rw [hcreating]
      exact ⟨_, .created, hs, rfl⟩
    · exact absurd hdeleting hk
  | boot =>
    have hinstalled := hready.2.1
    rcases h.bootable hp hready with hstate | hstate | hstate
    · rw [hstate]
      exact ⟨_, .installed, ⟨hs, rfl⟩, hinstalled⟩
    · rw [hstate]
      exact ⟨_, .started (.inl rfl), ⟨hs, rfl⟩, hinstalled⟩
    · rw [hstate]
      exact ⟨_, .started (.inr rfl), ⟨hs, rfl⟩, hinstalled⟩

theorem exited_listed (h : s.Known e) {p : Nat} {exit : ExitStatus} {timeout : String}
    (hg : (Op.exited e p exit timeout c).Guard cfg s t)
    (hst : ((s.record e).onExit s.clock (s.procs p).phase (s.procs p).timedOut exit timeout c).state = st)
    (hne : st ≠ (s.record e).state) : ∃ cause, Transition (s.record e).state st cause ∧
      (Op.exited e p exit timeout c).Causes s e cause := by
  have hproc : (s.entries e).proc ≠ none := by
    rw [hg.2.1.1]
    simp
  unfold VM.onExit at hst
  dsimp only at hst
  split at hst
  · exact absurd hst.symm hne
  rename_i hdeleting
  split at hst
  · rename_i hstopping
    subst hst
    rw [hstopping]
    exact ⟨_, .stopped, p, exit, timeout, c, rfl⟩
  rename_i hstopping
  have hlive := h.live hproc hdeleting hstopping
  split at hst
  · exact absurd hst.symm hne
  rename_i hdone
  split at hst
  · rename_i hinstall
    subst hst
    have hcause : exit.code ≠ 0 ∨ (s.procs p).timedOut = true := by
      by_cases hcode : exit.code = 0
      · right
        by_contra htimed
        exact hdone ⟨hinstall.1, hinstall.2, hcode, Bool.eq_false_iff.2 htimed⟩
      · exact .inl hcode
    rw [hinstall.2]
    exact ⟨_, .uninstalled, p, exit, timeout, c, rfl, hinstall.1, hcause⟩
  split at hst
  · rename_i hcode
    subst hst
    exact ⟨_, .shutDown hlive, p, exit, timeout, c, rfl, hcode⟩
  · rename_i hcode
    subst hst
    exact ⟨_, .crashed hlive, p, exit, timeout, c, rfl, hcode⟩

theorem listed (h : s.Known e) (hi : Inv s) (hstep : StepOf cfg s ev s') (hk : FollowsTable s ev) (ha : s.Alive e)
    (ha' : s'.Alive e) (hne : (s'.record e).state ≠ (s.record e).state) :
    ∃ t o cause, ev = .op t o ∧ Transition (s.record e).state (s'.record e).state cause ∧
      o.Causes s e cause := by
  cases hstep with
  | @op t o hg =>
    have hrec := hi.record_effect (e := e) hg fun _ => (hi.alive_lt ha).ne
    cases hw : o.writes s e with
    | none =>
      rw [hw] at hrec
      exact absurd (congrArg state hrec) hne
    | some u =>
      rw [hw] at hrec
      have hst := (congrArg state hrec).symm
      have hcause : ∃ cause, Transition (s.record e).state ((s.effect t o).record e).state cause ∧
          o.Causes s e cause := by
        rcases Op.writes_cases hw with rfl | ⟨phase, hs, rfl, rfl⟩ | ⟨p, exit, timeout, c, rfl, rfl⟩
        · exact h.update_listed hi hg hk hst hne
        · exact h.track_listed hi hg hk hst
        · exact h.exited_listed hg hst hne
      obtain ⟨cause, htable, hcause⟩ := hcause
      exact ⟨t, o, cause, rfl, htable, hcause⟩
  | call => exact absurd rfl hne
  | env hx =>
    rcases outside_split hx with _ | _
    · exact absurd rfl ha'
    · exact absurd rfl hne

end System.Known

theorem transitions_documented (cfg : Config) {K : System → Event → Prop}
    {pool pool' : Pool} {m : Move} {ev : Event}
    (h : Runs cfg K pool) (hs : pool.shared.serving = true) (hm : (service cfg).step pool m = some (ev, pool'))
    (hk : FollowsTable pool.shared ev) (ha : pool.shared.Alive e) (ha' : pool'.shared.Alive e)
    (hne : (pool'.shared.record e).state ≠ (pool.shared.record e).state) : ∃ t o cause, ev = .op t o ∧
      Transition (pool.shared.record e).state (pool'.shared.record e).state cause ∧
      o.Causes pool.shared e cause := by
  have hi := h.inv
  have hknown : pool.shared.Known e := by
    refine ⟨hs, h.dated.1 e ha, h.processes.1 e, fun hp => h.rests e ha hp ?_⟩
    rw [(hi.loader (hi.serving hs)).2]
    nofun
  exact hknown.listed hi (Runs.step h hm) hk ha ha' hne

instance (ev : Event) : Decidable (FollowsTable s ev) := by
  unfold FollowsTable
  split <;> infer_instance

theorem transitions_documented_created : ∃ pool ev pool', Runs Sample.config (fun _ _ => True) pool ∧
      (service Sample.config).step pool (.go 2 .ok) = some (ev, pool') ∧
      (pool.shared.serving = true ∧ FollowsTable pool.shared ev ∧ pool.shared.Alive 0 ∧ pool'.shared.Alive 0 ∧
        (pool.shared.record 0).state = .creating ∧ (pool'.shared.record 0).state = .installing) ∧
      ∃ t o cause, ev = .op t o ∧ Transition (pool.shared.record 0).state (pool'.shared.record 0).state cause ∧
        o.Causes pool.shared 0 cause :=
  Runs.witnessStep (Sample.allocated ++ Sample.provisioned ++ Sample.oks 2 1) (.go 2 .ok) (by decide +kernel)
    fun _ _ _ hrun hm hp => transitions_documented Sample.config hrun hp.1 hm hp.2.1 hp.2.2.1 hp.2.2.2.1
      (by rw [hp.2.2.2.2.1, hp.2.2.2.2.2]; nofun)

namespace Sample

def startFails : List Move :=
  attestedBoot ++ [.env (.exit 1 ⟨0, ""⟩), .go 4 (.exited {})] ++ oks 4 5 ++ [.call (.start "01")] ++
    oks 5 6 ++ [.go 5 (.err "no swtpm")]

def readyUnattested : List Move :=
  attestedBoot ++ asksNonce 5 Attest.Sample.quote1 ++
    [.env (.message 1 512 "" true), .go 6 .ok, .go 4 (.notify {})]

end Sample
open Sample

theorem transitions_undocumented :
    (∃ pool ev pool', Runs config (fun _ _ => True) pool ∧
      (service config).step pool (.go 5 .ok) = some (ev, pool') ∧ pool.shared.serving = true ∧ pool.shared.Alive 0 ∧
      pool'.shared.Alive 0 ∧ (pool.shared.record 0).state = .stopped ∧
      (pool'.shared.record 0).state = .failed) ∧ (∀ cause, ¬ Transition .stopped .failed cause) ∧
    (∃ pool ev pool', Runs config (fun _ _ => True) pool ∧
      (service config).step pool (.go 2 .ok) = some (ev, pool') ∧ pool.shared.serving = true ∧ pool.shared.Alive 0 ∧
      pool'.shared.Alive 0 ∧ (pool.shared.record 0).state = .deleting ∧ (pool'.shared.record 0).state = .installing) ∧
    (∀ cause, ¬ Transition .deleting .installing cause) ∧
    (∃ pool ev pool', Runs config (fun _ _ => True) pool ∧
      (service config).step pool (.go 4 .ok) = some (ev, pool') ∧ pool.shared.serving = true ∧ pool.shared.Alive 0 ∧
      pool'.shared.Alive 0 ∧ (pool.shared.record 0).state = .attesting ∧ (pool'.shared.record 0).state = .ready ∧
      (pool.shared.record 0).attestation.userDataReleased = false) := by
  refine ⟨Runs.sampleStep startFails (.go 5 .ok) (by decide +kernel), fun cause h => ?_,
    Runs.sampleStep (deletedFirst ++ oks 2 1) (.go 2 .ok) (by decide +kernel), fun cause h => ?_,
    Runs.sampleStep readyUnattested (.go 4 .ok) (by decide +kernel)⟩
  · cases h with
    | crashed hl | unbooted hl => cases hl.1
  · cases h

end VmManager.Vm
