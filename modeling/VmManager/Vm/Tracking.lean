import VmManager.Vm.Enrolment
import VmManager.Vm.Shutdown

/-! No QEMU is lost sight of. While vm-manager runs, a QEMU of a VM it knows is tracked, is being started
under the VM's lock, or is about to be reattached by Load; one of a VM it does not know is named by the
record on disk. The source keeps this up within one vm-manager. Across a restart it rests on two things
the source does not see to: that vm-manager ends only when the record on disk names the QEMU, and that a
QEMU which cannot be reattached has ended. -/
namespace VmManager.Vm
open Encoding Attest Interleaving Option Vm.System List Function
variable {cfg : Config} {s s' : System} {t e q : Nat} {op : Op}

namespace System

def Running (s : System) (q : Nat) : Prop := (s.qemus q).exit = none

instance (s : System) (q : Nat) : Decidable (s.Running q) := inferInstanceAs (Decidable (_ = _))

def Resumable (s : System) (q : Nat) : Prop :=
  ∃ r h, s.disk.get (s.qemus q).vm = some r ∧ r.loaded.state.live = true ∧ r.processes = some h ∧ h.qemu = q

def InHand (s : System) (e q : Nat) : Prop :=
  s.Tracked e q ∨ ((s.qemus q).entry = e ∧ (s.entries e).opMu ≠ none) ∨
    (s.loading = some e ∧ ∃ h, (s.record e).processes = some h ∧ h.qemu = q)

end System

theorem Inv.running_of_effect (hr : (s.effect t op).Running q) :
    (s.Running q ∧ ((s.effect t op).qemus q).vm = (s.qemus q).vm ∧
      ((s.effect t op).qemus q).entry = (s.qemus q).entry) ∨
    ∃ e phase cid, op = .runtimeStart e phase cid (some q) ∧
      ((s.effect t op).qemus q).vm = (s.record e).id ∧ ((s.effect t op).qemus q).entry = e := by
  cases op with
  | runtimeStart e phase cid q' =>
    cases q' with
    | none => exact .inl ⟨hr, rfl, rfl⟩
    | some q' =>
      by_cases hq : q = q'
      · subst hq
        refine .inr ⟨e, phase, cid, rfl, ?_, ?_⟩ <;>
          simp [System.effect, System.apply]
      · have hsame : (s.effect t (.runtimeStart e phase cid (some q'))).qemus q = s.qemus q :=
          update_of_ne hq ..
        rw [Running, hsame] at hr
        rw [hsame]
        exact .inl ⟨hr, rfl, rfl⟩
  | exited e p exit timeout c =>
    by_cases hq : q = (s.procs p).handles.qemu
    · subst hq
      have hsame : (s.effect t (.exited e p exit timeout c)).qemus (s.procs p).handles.qemu =
          { s.qemus (s.procs p).handles.qemu with settled := true } := update_self ..
      rw [Running, hsame] at hr
      rw [hsame]
      exact .inl ⟨hr, rfl, rfl⟩
    · have hsame : (s.effect t (.exited e p exit timeout c)).qemus q = s.qemus q :=
        update_of_ne hq ..
      rw [Running, hsame] at hr
      rw [hsame]
      exact .inl ⟨hr, rfl, rfl⟩
  | _ => exact .inl ⟨hr, rfl, rfl⟩

namespace Inv

theorem disk_kept (hg : op.Guard cfg s t) {id : String} (hid : ∀ e, s.Alive e → (s.record e).id ≠ id)
    (hdir : s.dirExists id = true) (hf : op.FreshDir s) : (s.effect t op).disk.get id = s.disk.get id := by
  have hne : s.dirExists id ≠ false := by
    rw [hdir]
    nofun
  refine disk_frame (fun e u hw => hid e (Op.alive_of_writes hg hw)) fun hop => ?_
  cases op with
  | allocate id' | undoAllocate id' =>
    cases hop
    exact hne hf
  | removeDir id' =>
    cases hop
    obtain ⟨e, he, hy⟩ := hg
    exact hid e hy.1.2.1 he
  | _ => cases hop

theorem tracked_kept (hi : Inv s) (hg : op.Guard cfg s t) (hr : s.Running q)
    (h : s.Tracked e q) : (s.effect t op).Tracked e q := by
  refine (hi.tracked_effect hg h).resolve_right ?_
  rintro ⟨p, exit, timeout, c, rfl, rfl⟩
  rw [Running, hg.2.2] at hr
  cases hr

theorem opMu_held (hi : Inv s) (hg : op.Guard cfg s t) (hm : (s.entries e).opMu ≠ none) :
    ((s.effect t op).entries e).opMu ≠ none ∨ (op = .unlock e ∧ s.Covered e) := by
  rcases hi.opMu_effect hg e with ⟨-, hx⟩ | ⟨rfl, -⟩ | hx
  · rw [hx]
    exact .inl (some_ne_none t)
  · exact .inr ⟨rfl, hg.2.1⟩
  · exact .inl (hx ▸ hm)

end Inv

/-- vm-manager ends only when every running QEMU is in the record of its VM on disk, a QEMU that Load
cannot reattach has ended, and Create draws new ids, of which there is no directory. -/
def KeepsTrack (s : System) : Event → Prop
  | .env .crash => ∀ q < s.nextQemu, s.Running q → s.Resumable q
  | .op _ (.update e (.reattachFailed _)) =>
    ∀ h, (s.record e).processes = some h → ¬ s.Running h.qemu
  | .op _ o => o.FreshId s ∧ o.FreshDir s
  | _ => True

theorem KeepsTrack.fresh (h : KeepsTrack s (.op t op)) : op.FreshId s ∧ op.FreshDir s := by
  cases op with
  | update => exact ⟨trivial, trivial⟩
  | _ => exact h

structure InSight (s : System) : Prop where
  distinct : s.Distinct
  ended : s.SettledEnded
  minds : ∀ q e, s.Running q → s.Alive e → (s.record e).id = (s.qemus q).vm → s.InHand e q
  resumable : ∀ q, s.Running q → (∀ e, s.Alive e → (s.record e).id ≠ (s.qemus q).vm) → s.Resumable q

namespace InSight

theorem minds_effect (h : InSight s) (hi : Inv s) (hg : op.Guard cfg s t)
    (hk : KeepsTrack s (.op t op)) (hr : s.Running q) (ha : s.Alive e)
    (hent : ((s.effect t op).qemus q).entry = (s.qemus q).entry) (hm : s.InHand e q) :
    (s.effect t op).InHand e q := by
  rcases hm with htr | ⟨hq, hmu⟩ | ⟨hl, hs, hproc, hqemu⟩
  · exact .inl (hi.tracked_kept hg hr htr)
  · rcases hi.opMu_held hg hmu with hheld | ⟨rfl, hcov⟩
    · exact .inr (.inl ⟨hent.trans hq, hheld⟩)
    · have hset : (s.qemus q).settled = false := Bool.eq_false_iff.2 fun hx => h.ended q hx hr
      exact .inl (hi.tracked_kept hg hr (hcov q ⟨ha, hq, hset⟩))
  · rcases Inv.loading_kept hg hl with hl' | ⟨err, rfl⟩ | ⟨phase, hs', rfl⟩
    · refine .inr (.inr ⟨hl', hs, ?_, hqemu⟩)
      rw [(hi.loading_record hg hl hl').1]
      exact hproc
    · exact absurd hr (hqemu ▸ hk hs hproc)
    · obtain ⟨-, -, -, ⟨hs₁, hproc₁, hq₁, -⟩, -⟩ := hg
      obtain rfl : hs = hs₁ := some.inj (hproc.symm.trans hproc₁)
      refine .inl ⟨s.nextProc, ?_, ?_⟩
      · simp [System.effect, System.apply, addProc]
      · simp [System.effect, System.apply, addProc, ← hq₁, hqemu]

theorem minds_added (h : InSight s) (hi : Inv s) (hg : op.Guard cfg s t) (hf : op.FreshId s) (hd : op.FreshDir s)
    (hadd : op.adds = true) (hr : s.Running q) (hid : ((s.effect t op).record s.nextEntry).id = (s.qemus q).vm) :
    (s.effect t op).InHand s.nextEntry q := by
  rcases Inv.record_added (s := s) (t := t) op hadd with ⟨id, m, cid, spec, rfl, hrec⟩ |
    ⟨id, r, rfl, hrec⟩
  · have hvm : id = (s.qemus q).vm := by
      rw [hrec] at hid
      exact hid
    obtain ⟨r, -, hdisk, -⟩ := h.resumable q hr fun e ha => hvm ▸ hf e (hi.alive_lt ha) ha
    have hdir : s.dirExists id = false := hd
    rw [dirExists, hvm, hdisk] at hdir
    cases hdir
  · have hvm : r.id = (s.qemus q).vm := by
      rw [hrec, VM.loaded_id] at hid
      exact hid
    obtain ⟨-, -, hdisk, rfl, ⟨rest, hp⟩, -⟩ := hg
    have hfree : ∀ e, s.Alive e → (s.record e).id ≠ (s.qemus q).vm := by
      intro e ha heq
      exact (hi.pending _ hp).2 e ha (by rw [heq, ← hvm]; exact mem_cons_self)
    obtain ⟨r', hs, hdisk', hlive, hproc, hq⟩ := h.resumable q hr hfree
    rw [← hvm, hdisk] at hdisk'
    obtain rfl := some.inj hdisk'
    refine .inr (.inr ⟨if_pos hlive, hs, ?_, hq⟩)
    rw [hrec]
    unfold VM.loaded
    split <;> exact hproc

theorem effect (h : InSight s) (hi : Inv s) (hg : op.Guard cfg s t) (hk : KeepsTrack s (.op t op)) :
    InSight (s.effect t op) where
  distinct := h.distinct.effect hi hg hk.fresh.1
  ended := h.ended.effect hg
  minds q e hr ha hid := by
    rcases Inv.running_of_effect hr with ⟨hr₀, hvm, hent⟩ | ⟨e₀, phase, cid, rfl, hvm, hent⟩
    · rcases hi.alive_of_effect hg ha with ha₀ | ⟨hadd, rfl⟩
      · rw [hvm, (hi.ident hg ha₀).1] at hid
        exact h.minds_effect hi hg hk hr₀ ha₀ hent (h.minds q e hr₀ ha₀ hid)
      · rw [hvm] at hid
        exact h.minds_added hi hg hk.fresh.1 hk.fresh.2 hadd hr₀ hid
    · have hvac := hg.1
      rw [hvm] at hid
      obtain rfl : e = e₀ := h.distinct e e₀ ha hvac.2.1 hid
      refine .inr (.inl ⟨hent, ?_⟩)
      change (s.entries e).opMu ≠ none
      rw [hvac.1]
      simp
  resumable q hr hfree := by
    rcases Inv.running_of_effect hr with ⟨hr₀, hvm, -⟩ | ⟨e₀, phase, cid, rfl, hvm, -⟩
    · have hfree₀ : ∀ e, s.Alive e → (s.record e).id ≠ (s.qemus q).vm := by
        intro e ha
        rw [← hvm, ← (hi.ident hg ha).1]
        exact hfree e (hi.alive_effect hg ha)
      obtain ⟨r, hs, hdisk, hrest⟩ := h.resumable q hr₀ hfree₀
      have hdir : s.dirExists (s.qemus q).vm = true := by
        rw [dirExists, hdisk]
        rfl
      refine ⟨r, hs, ?_, hrest⟩
      rw [hvm, Inv.disk_kept hg hfree₀ hdir hk.fresh.2]
      exact hdisk
    · have hvac := hg.1
      exact absurd hvm.symm (hfree e₀ hvac.2.1)

theorem outside {x : Outside} {n : Nat} (h : InSight s) (hi : Inv s) (hx : s.outside n x = some s')
    (hk : KeepsTrack s (.env x)) : InSight (s'.noting x s) := by
  have hdistinct := h.distinct.outside hx
  rcases outside_split hx with _ | @⟨_, qemus, _, _, _, _, hne⟩
  · refine ⟨hdistinct, h.ended, fun _ _ _ ha => absurd rfl ha, fun q hr _ => hk q ?_ hr⟩
    by_contra hge
    have hr : s.Running q := hr
    rw [Running, hi.freshQemu q (by omega)] at hr
    cases hr
  · obtain ⟨_, _, _, _, _, heq, hq, -⟩ := outside_eq hx hne
    cases heq
    have hrun : ∀ q, (qemus q).exit = none → s.Running q := by
      intro q hr
      by_contra hend
      obtain ⟨st, hst⟩ := ne_none_iff_exists'.1 hend
      cases ((hq q).2.2.2.2 st hst).symm.trans hr
    refine ⟨hdistinct, fun q hend hr => ?_, fun q e hr ha hid => ?_, fun q hr hfree => ?_⟩
    · exact h.ended q ((hq q).2.2.2.1.symm.trans hend) (hrun q hr)
    · rcases h.minds q e (hrun q hr) ha (hid.trans (hq q).1) with hp | ⟨he, hmu⟩ | hl
      · exact .inl hp
      · exact .inr (.inl ⟨(hq q).2.1.trans he, hmu⟩)
      · exact .inr (.inr hl)
    · have hold := h.resumable q (hrun q hr) fun e ha => (hq q).1 ▸ hfree e ha
      rw [Resumable, (hq q).1]
      exact hold

theorem initial : InSight {} where
  distinct := .initial
  ended _ hq := nofun
  minds _ _ _ ha := absurd rfl ha
  resumable _ hr := by cases hr

end InSight

instance (q : Nat) : Decidable (s.Resumable q) :=
  decidable_of_iff (∃ r ∈ s.disk.get (s.qemus q).vm, r.loaded.state.live = true ∧ ∃ h ∈ r.processes, h.qemu = q)
    ⟨fun ⟨r, hr, hlive, h, hp, hq⟩ => ⟨r, h, hr, hlive, hp, hq⟩, fun ⟨r, h, hr, hlive, hp, hq⟩ => ⟨r, hr, hlive, h, hp, hq⟩⟩

instance (ev : Event) : Decidable (KeepsTrack s ev) := by
  unfold KeepsTrack
  split <;> infer_instance

namespace Sample

end Sample
open Sample

end VmManager.Vm
