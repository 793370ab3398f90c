import VmManager.Attest.Verdict
import VmManager.Vm.Records

/-! The lifecycle of one VM is coherent: what a tracked process says about the record, which QEMU
processes can be left, what the milestones of a record mean and which steps may set them. -/
namespace VmManager.Vm
open Encoding Attest Interleaving Vm.System Option VM
variable {cfg : Config} {s s' : System} {t e : Nat} {op : Op} {K : System → Event → Prop}
  {pool : Pool} {ok : System → Event → Bool} {ev : Event} {u : Update}

structure VM.Coherent (r : VM) : Prop where
  booted : r.state = .booting ∨ r.state = .attesting ∨ r.state = .running ∨ r.state = .ready → r.bootedAt ≠ none
  ready : r.state = .ready → r.booted = true ∧ r.readyAt ≠ none

namespace VM.Coherent
variable {r : VM} {now : Nat}

theorem of_state (h : r.state ≠ .booting ∧ r.state ≠ .attesting ∧ r.state ≠ .running ∧ r.state ≠ .ready) : r.Coherent :=
  ⟨fun hs => by simp_all, fun hs => absurd hs h.2.2.2⟩

theorem onNotify (h : r.Coherent) (n : Notification) (c : Console) :
    (r.onNotify now n c).Coherent := by
  have hst : ∀ r' : VM, r'.state = r.state → r'.bootedAt = r.bootedAt → r'.booted = r.booted →
      r'.readyAt = r.readyAt → r'.Coherent := fun r' h1 h2 h3 h4 =>
    ⟨by rw [h1, h2]; exact h.booted, by rw [h1, h3, h4]; exact h.ready⟩
  unfold VM.onNotify
  dsimp only
  have hb := h.booted
  split <;> split
  · exact ⟨fun _ => hb (by tauto), fun _ => ⟨rfl, nofun⟩⟩
  · exact h
  · exact ⟨fun _ => hb (by tauto), fun _ => ⟨rfl, nofun⟩⟩
  · exact hst _ rfl rfl rfl rfl

theorem onNonce (h : r.Coherent) : (r.onNonce now).Coherent := by
  unfold VM.onNonce
  dsimp only
  split
  · rename_i hb
    exact ⟨fun _ => h.booted (.inl hb.2), nofun⟩
  · exact ⟨h.booted, h.ready⟩

theorem update (h : r.Coherent) (u : Update)
    (hov : ∀ timeout c, u = .overdue timeout c → r.state = .booting ∨ r.state = .attesting) :
    (r.update now u).Coherent := by
  cases u with
  | volume | leased | reassigned | quoteRecorded | resaved => exact ⟨h.booted, h.ready⟩
  | installing | failed | handoffClosed | stopping | deleting | reattachFailed =>
    exact of_state (by simp [VM.update])
  | booting => constructor <;> simp [VM.update]
  | overdue timeout c =>
    have hb := h.booted
    have hst := hov timeout c rfl
    exact ⟨fun _ => hb (by tauto), by simp [VM.update]⟩
  | notified n c => exact h.onNotify n c
  | nonceIssued => exact h.onNonce
  | exited phase timedOut exit timeout c =>
    rcases r.onExit_cases now phase timedOut exit timeout c with ⟨hs, he⟩ | ⟨hs, he⟩ | ⟨hs, he | he⟩ <;>
      exact of_state (by simp [VM.update, he, hs])

theorem loaded (h : r.Coherent) : r.loaded.Coherent := by
  unfold VM.loaded
  split
  · exact of_state (by simp)
  · exact h

end VM.Coherent

theorem Runs.coherent (h : Runs cfg K pool) : pool.shared.Records Coherent := by
  refine Runs.invariant (I := fun s => s.Records Coherent) Records.initial
    (fun s t o hi hr hg _ => ?_) (fun s x n s' _ hr _ hx => hr.outside hx) h
  refine hr.effect hi hg (fun id m cid spec _ => .of_state (by simp [newVM]))
    (fun r hc => hc.loaded) fun e u hw _ hc => hc.update u ?_
  rintro timeout c rfl
  rcases Op.writes_cases hw with rfl | ⟨phase, h, -, hu⟩ | ⟨_, _, _, _, -, hu⟩
  · exact hg.2.2
  · cases phase <;> cases hu
  · cases hu

def System.Handled (s : System) (e : Nat) : Prop := ∀ p, (s.entries e).proc = some p →
  ((s.record e).state.live = true ∨ (s.record e).state = .deleting) ∧
    ∃ h, (s.record e).processes = some h ∧ h.qemu = (s.procs p).handles.qemu

theorem VM.update_handled (r : VM) (now : Nat) (hu : u.mayRun = true)
    (hst : r.state.live = true ∨ r.state = .deleting) :
    ((r.update now u).state.live = true ∨ (r.update now u).state = .deleting) ∧
      (r.update now u).processes = r.processes := by
  cases u with
  | nonceIssued =>
    refine ⟨?_, (r.onNonce_same now).processes⟩
    rcases r.onNonce_state now with h | h
    · rw [VM.update, h]; exact hst
    · exact .inl (by rw [VM.update, h.2]; rfl)
  | notified n c =>
    refine ⟨?_, (r.onNotify_same now n c).processes⟩
    rcases r.onNotify_state now n c with h | h
    · rw [VM.update, h]; exact hst
    · exact .inl (by rw [VM.update, h.2]; rfl)
  | installing | booting | failed | handoffClosed | exited | reattachFailed => cases hu
  | stopping | overdue => exact ⟨.inl rfl, rfl⟩
  | deleting => exact ⟨.inr rfl, rfl⟩
  | volume | leased | reassigned | quoteRecorded | resaved => exact ⟨hst, rfl⟩

theorem Update.Guard.mayRun (hi : Inv s) (hg : u.Guard s t e) (hp : (s.entries e).proc ≠ none) : u.mayRun = true := by
  cases u with
  | installing | booting | exited => exact hg.elim
  | failed | handoffClosed => exact absurd hg.1.2.2.1 hp
  | reattachFailed => exact absurd ((hi.entry e).loading hg.2).2.1 hp
  | _ => rfl

theorem Inv.handled_effect (hi : Inv s) (hg : op.Guard cfg s t) (h : ∀ e, s.Handled e) (e : Nat) :
    (s.effect t op).Handled e := by
  intro p hp
  by_cases hc : op.Concerns s e
  swap
  · have hs := hi.same hg hc
    rw [hs.proc] at hp
    rw [hs.record, (hs.procs p hp).2.2.2.1]
    exact h e p hp
  cases op with
  | lock e' | unlock e' =>
    cases hc
    have hp' : (s.entries e).proc = some p := by
      simpa [System.effect, System.apply, modifyEntry] using hp
    simpa [System.effect, System.apply, modifyEntry, System.record] using h e p hp'
  | update e' u =>
    cases hc
    rw [s.update_entry] at hp
    have hne : (s.entries e).proc ≠ none := by rw [show (s.entries e).proc = some p from hp]; simp
    obtain ⟨hst, hh, hproc, hq⟩ := h e p hp
    obtain ⟨h1, h2⟩ := (s.record e).update_handled s.clock (hg.2.mayRun hi hne) hst
    rw [s.update_record]
    exact ⟨h1, hh, h2.trans hproc, hq⟩
  | track e' phase hs =>
    cases hc
    rw [s.track_entry] at hp
    cases hp
    rw [s.track_record]
    refine ⟨.inl (by cases phase <;> rfl), hs, by cases phase <;> rfl, ?_⟩
    simp [System.effect, System.apply, updateRec, addProc]
  | reattach e' phase hs =>
    cases hc
    obtain ⟨-, hload, -, ⟨h', hproc, hq, -⟩, -⟩ := hg
    have hp' : p = s.nextProc := by
      simpa [System.effect, System.apply, addProc, eq_comm] using hp
    subst hp'
    have hr : (s.effect t (.reattach e phase hs)).record e = s.record e := by
      simp [System.effect, System.apply, addProc, System.record]
    rw [hr]
    refine ⟨.inl ((hi.entry e).loading hload).2.2.2.2, h', hproc, ?_⟩
    simpa [System.effect, System.apply, addProc] using hq
  | exited e' => cases hc; rw [s.exited_entry] at hp; cases hp
  | allocate | loadEntry =>
    cases hc
    simp [System.effect, System.apply, System.addEntry] at hp
  | remove | runtimeStart => exact h e p hp
  | _ => exact hc.elim

theorem Inv.single_effect (hi : Inv s) (hg : op.Guard cfg s t) (h : ∀ q q', s.Unsettled e q → s.Unsettled e q' → q = q')
    (q q' : Nat) (hq : (s.effect t op).Unsettled e q) (hq' : (s.effect t op).Unsettled e q') : q = q' := by
  rcases hi.unsettled_effect hg hq with h1 | ⟨phase, cid, rfl⟩
  · rcases hi.unsettled_effect hg hq' with h2 | ⟨phase, cid, rfl⟩
    · exact h q q' h1 h2
    · exact absurd h1 (hg.1.2.2.2 q)
  · rcases hi.unsettled_effect hg hq' with h2 | ⟨_, _, heq⟩
    · exact absurd h2 (hg.1.2.2.2 q')
    · cases heq
      rfl

namespace VM

theorem update_booted (r : VM) (now : Nat) (u : Update) (h : r.booted = true) :
    (r.update now u).booted = true := by
  have hf := r.passing_frame now (u := u)
  cases u with
  | notified | nonceIssued | exited => exact (hf rfl).booted h
  | _ => exact h

theorem update_installs (r : VM) (now : Nat) (h : r.installedAt = none)
    (h' : (r.update now u).installedAt ≠ none) : ∃ phase timedOut exit timeout c,
      u = .exited phase timedOut exit timeout c ∧ phase = .install ∧ r.state = .installing ∧
        exit.code = 0 ∧ timedOut = false := by
  cases u with
  | exited phase timedOut exit timeout c =>
    rw [update, onExit_installedAt] at h'
    split at h'
    · rename_i hd
      exact ⟨phase, timedOut, exit, timeout, c, rfl, (r.installerDone_iff ..).1 hd⟩
    · exact absurd h h'
  | notified n c =>
    rw [update, (r.onNotify_same now n c).installedAt] at h'
    exact absurd h h'
  | nonceIssued =>
    rw [update, (r.onNonce_same now).installedAt] at h'
    exact absurd h h'
  | _ => exact absurd h h'

end VM

structure EntryCoherent (s : System) (e : Nat) : Prop where
  tracked : s.Handled e
  idle : (s.record e).state = .creating ∨ (s.record e).state = .stopped ∨
    (s.record e).state = .failed → (s.entries e).proc = none
  single : ∀ q q', s.Unsettled e q → s.Unsettled e q' → q = q'
  ready : (s.record e).state = .ready →
    (s.record e).booted = true ∧ (s.record e).bootedAt ≠ none ∧ (s.record e).readyAt ≠ none

/-- What one step may do to the milestones of an entry. -/
structure StepCoherent (s : System) (ev : Event) (s' : System) (e : Nat) : Prop where
  boot : ∀ t cid q, ev = .op t (.runtimeStart e .boot cid q) → (s.record e).installedAt ≠ none
  installed : (s.record e).installedAt ≠ none → (s'.record e).installedAt ≠ none
  booted : (s.record e).booted = true → (s'.record e).booted = true
  installs : (s.record e).installedAt = none → (s'.record e).installedAt ≠ none →
    ∃ t p exit timeout c, ev = .op t (.exited e p exit timeout c) ∧ (s.procs p).phase = .install ∧
      (s.record e).state = .installing ∧ exit.code = 0 ∧ (s.procs p).timedOut = false

theorem EntryCoherent.of_parts (hh : s.Handled e) (hr : (s.record e).Coherent)
    (hs : ∀ q q', s.Unsettled e q → s.Unsettled e q' → q = q') : EntryCoherent s e := by
  refine ⟨hh, fun hst => ?_, hs, fun hst => ?_⟩
  · by_contra hn
    obtain ⟨p, hp⟩ := ne_none_iff_exists'.1 hn
    rcases hst with hst | hst | hst <;> simpa [hst, State.live] using (hh p hp).1
  · obtain ⟨h1, h2⟩ := hr.ready hst
    exact ⟨h1, hr.booted (.inr (.inr (.inr hst))), h2⟩

theorem StepCoherent.of_same (hr : s'.record e = s.record e) (hev : ∀ t o, ev ≠ .op t o) : StepCoherent s ev s' e where
  boot t cid q h := absurd h (hev _ _)
  installed := by rw [hr]; exact id
  booted := by rw [hr]; exact id
  installs h h' := absurd h (by rw [hr] at h'; exact h')

theorem StepCoherent.of_op (hi : Inv s) (hg : op.Guard cfg s t) (ha : s.Alive e) :
    StepCoherent s (.op t op) (s.effect t op) e := by
  have hr := hi.record_effect hg fun _ => (hi.alive_lt ha).ne
  refine ⟨?_, (hi.later hg).installed e ha, fun hb => ?_, fun h h' => ?_⟩
  · rintro t' cid q heq
    cases heq
    exact hg.2.1.2.1
  · rw [hr]
    cases op.writes s e with
    | none => exact hb
    | some u => exact update_booted _ _ u hb
  · rw [hr] at h'
    cases hw : op.writes s e with
    | none =>
      rw [hw] at h'
      exact absurd h h'
    | some u =>
      rw [hw] at h'
      obtain ⟨phase, timedOut, exit, timeout, c, rfl, h1, h2, h3, h4⟩ := update_installs _ _ h h'
      rcases Op.writes_cases hw with rfl | ⟨phase', hs, rfl, hu⟩ | ⟨p, exit', timeout', c', rfl, hu⟩
      · exact hg.2.elim
      · cases phase' <;> cases hu
      · cases hu
        exact ⟨t, p, exit, timeout, c, rfl, h1, h2, h3, h4⟩

theorem StepCoherent.of_step (hi : Inv s) (hst : StepOf cfg s ev s')
    (ha : s.Alive e) (ha' : s'.Alive e) : StepCoherent s ev s' e := by
  cases hst with
  | op hg => exact .of_op hi hg ha
  | call => exact .of_same rfl fun _ _ h => by cases h
  | env hx =>
    rcases outside_split hx with _ | _
    · exact absurd rfl ha'
    · exact .of_same rfl fun _ _ h => by cases h

theorem OutsideStep.handled (ho : OutsideStep s s') (h : s.Handled e) : s'.Handled e := by
  intro p hp
  rw [(ho.same e).proc] at hp
  rw [(ho.same e).record, ho.procs]
  exact h p hp

theorem Runs.processes (h : Runs cfg K pool) : (∀ e, pool.shared.Handled e) ∧
      ∀ e q q', pool.shared.Unsettled e q → pool.shared.Unsettled e q' → q = q' := by
  refine Runs.invariant (I := fun s => (∀ e, s.Handled e) ∧
      ∀ e q q', s.Unsettled e q → s.Unsettled e q' → q = q') ⟨nofun, fun _ _ _ hu => absurd rfl hu.1⟩
    (fun s t o hi hI hg _ => ⟨hi.handled_effect hg hI.1, fun e => hi.single_effect hg (hI.2 e)⟩)
    (fun s x n s' _ hI _ hx => ?_) h
  rcases outside_split hx with _ | ⟨-, ho⟩
  · exact ⟨nofun, fun _ _ _ hu => absurd rfl hu.1⟩
  · exact ⟨fun e => ho.handled (hI.1 e), fun e q q' hq hq' =>
      hI.2 e q q' ((ho.same e).unsettled q hq) ((ho.same e).unsettled q' hq')⟩

theorem lifecycle_coherent (cfg : Config) {pool : Pool}
    (h : Runs cfg (fun _ _ => True) pool) : (∀ e, pool.shared.Alive e → EntryCoherent pool.shared e) ∧
      ∀ m ev pool', (service cfg).step pool m = some (ev, pool') → ∀ e, pool.shared.Alive e → pool'.shared.Alive e →
          StepCoherent pool.shared ev pool'.shared e := by
  obtain ⟨hh, hs⟩ := h.processes
  exact ⟨fun e ha => .of_parts (hh e) (h.coherent.1 e ha) (hs e),
    fun m ev pool' hm e ha ha' => .of_step h.inv (h.step hm) ha ha'⟩

namespace Sample

def config : Config where
  images _ := .ok { ref := "img@1", kubernetesVersions := ["v1"], policy := .ok Attest.Sample.policy }
  tpm2 := Attest.Sample.tpm2
  crypto := Attest.Sample.crypto

/-- Goroutine `t` takes `n` steps in which all that is asked of the host succeeds. -/
def oks (t n : Nat) : List Move := List.replicate n (.go t .ok)

def withNetwork : List Move :=
  [.env .start] ++ oks 0 3 ++
    [.call (.createNetwork { name := "a", cidr := ⟨0x0a000000, 24⟩ })] ++ oks 1 7

/-- Goroutine `t` creates a VM, up to the record of the installer's process. -/
def creates (t : Nat) (spec : Spec) (id : String) : List Move :=
  [.call (.create spec)] ++ oks t 1 ++ [.go t (.ids id "machine")] ++ oks t 2 ++
    [.go t (.ids "key" "")] ++ oks t 14

end Sample

theorem Runs.exec {ms : List Move} (hok : ∀ s ev, ok s ev = true → K s ev)
    (hx : Machine.execWith ok (service cfg) ms ⟨{}, []⟩ = some pool) : Runs cfg K pool :=
  Machine.Run.execWith hok .start hx

/-! Statements that some run exists are proved by a sample: its moves, and the evaluation of what the
run has to meet. -/
section Sample
variable {z : System} [∀ s ev, Decidable (K s ev)] {P C : Pool → Prop} [DecidablePred P]
  {S D : Pool → Event → Pool → Prop} [∀ pool ev pool', Decidable (S pool ev pool')]

def Sample.run (K : System → Event → Prop) [∀ s ev, Decidable (K s ev)] (z : System) (ms : List Move) :
    Option Pool :=
  Machine.execWith (fun s ev => decide (K s ev)) (service config) ms ⟨z, []⟩

namespace Runs

theorem sample (ms : List Move) (hx : (Sample.run K z ms).any (fun p => decide (P p)) = true) :
    ∃ pool, (service Sample.config).Run K z pool ∧ P pool := by
  obtain ⟨pool, hpool, hp⟩ := (any_eq_true _ _).1 hx
  exact ⟨pool, Machine.Run.execWith (fun _ _ h => of_decide_eq_true h) .start hpool, of_decide_eq_true hp⟩

theorem witness (ms : List Move) (hx : (Sample.run K z ms).any (fun p => decide (P p)) = true)
    (h : ∀ pool, (service Sample.config).Run K z pool → P pool → C pool) :
    ∃ pool, (service Sample.config).Run K z pool ∧ P pool ∧ C pool := by
  obtain ⟨pool, hrun, hp⟩ := Runs.sample ms hx
  exact ⟨pool, hrun, hp, h pool hrun hp⟩

theorem sampleStep (ms : List Move) (m : Move) (hx : (Sample.run K z ms).any (fun p =>
      ((service Sample.config).step p m).any fun r => decide (S p r.1 r.2)) = true) :
    ∃ pool ev pool', (service Sample.config).Run K z pool ∧
      (service Sample.config).step pool m = some (ev, pool') ∧ S pool ev pool' := by
  obtain ⟨pool, hpool, hp⟩ := (any_eq_true _ _).1 hx
  obtain ⟨⟨ev, pool'⟩, hm, hs⟩ := (any_eq_true _ _).1 hp
  have hrun := Machine.Run.execWith (fun _ _ h => of_decide_eq_true h) .start hpool
  exact ⟨pool, ev, pool', hrun, hm, of_decide_eq_true hs⟩

theorem witnessStep (ms : List Move) (m : Move) (hx : (Sample.run K z ms).any (fun p =>
      ((service Sample.config).step p m).any fun r => decide (S p r.1 r.2)) = true)
    (h : ∀ pool ev pool', (service Sample.config).Run K z pool →
      (service Sample.config).step pool m = some (ev, pool') → S pool ev pool' → D pool ev pool') :
    ∃ pool ev pool', (service Sample.config).Run K z pool ∧
      (service Sample.config).step pool m = some (ev, pool') ∧ S pool ev pool' ∧ D pool ev pool' := by
  obtain ⟨pool, ev, pool', hrun, hm, hs⟩ := Runs.sampleStep ms m hx
  exact ⟨pool, ev, pool', hrun, hm, hs, h pool ev pool' hrun hm hs⟩

end Runs

end Sample

theorem lifecycle_coherent_installing : ∃ pool, Runs Sample.config (fun _ _ => True) pool ∧
      (pool.shared.Alive 0 ∧ (pool.shared.entries 0).proc = some 0) ∧ EntryCoherent pool.shared 0 :=
  Runs.witness (Sample.withNetwork ++ Sample.creates 2 { name := "one", network := "a" } "01") (by decide +kernel)
    fun _ hrun hp => (lifecycle_coherent Sample.config hrun).1 0 hp.1

end VmManager.Vm
