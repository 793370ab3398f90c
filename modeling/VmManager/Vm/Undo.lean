import VmManager.Interleaving.Solo
import VmManager.Vm.Coherence
import VmManager.Vm.Ledger

/-! What a failed Create leaves behind. One routine, `discard`, undoes a Create wherever it fails: it
takes the lease, the volume and the directory under the id of the new VM away and the VM out of the
service. Every step before that touches only what is under that id, so nothing else changes; and what is
under the id is gone at the end, which is as it was if there was nothing before. -/
namespace VmManager.Vm
open Encoding Interleaving Interleaving.Machine Option Function GoMap Vm.System List
open Interleaving.Outline (Post)
variable {cfg : Config} {s s' s₀ : System} {t e n : Nat} {op : Op} {id name : String} {ev : Event}

/-- What there is under the id of a VM: its volume, the files of its directory and its place in the
service. -/
structure Belongings where
  volume : Option Unit := none
  record : Option VM := none
  files : Option Unit := none
  userData : Option Bytes := none
  report : Option Bytes := none
  entry : Option Nat := none

namespace System

def belongings (s : System) (id : String) : Belongings where
  volume := s.host.volumes.get id
  record := s.disk.get id
  files := s.host.files.get id
  userData := s.host.userDataFiles.get id
  report := s.host.reports.get id
  entry := s.vms.get id

def leaseAt (s : System) (ref : Nat) (id : String) : Option Network.Addr :=
  (s.nets.net ref).bind fun x => x.leases.get id

/-- Nothing was lost and nothing is left: every VM has its volume, directory and lease as before, and
networks.json is as it was or says what the networks lease now. -/
structure Preserved (s s' : System) : Prop where
  belongings : ∀ id, s'.belongings id = s.belongings id
  networks : s'.nets.byName = s.nets.byName
  leases : ∀ ref id, s'.leaseAt ref id = s.leaseAt ref id
  saved : s'.host.networksFile = s.host.networksFile ∨ s'.host.networksFile = s'.nets.states

def Aside (s s' : System) : Prop :=
  ∃ qemus clock writable up loader x,
    s' = { s with qemus, clock, writable, up, loader, hist := .outside x :: s.hist }

/-- The state differs from `s₀` at most in what the VM `id` of goroutine `t` has: entry `e`, and a lease
of network `n`. -/
structure Around (s₀ : System) (t e n : Nat) (id name : String) (s : System) : Prop where
  others : ∀ x, x ≠ id → s.belongings x = s₀.belongings x
  networks : s.nets.byName = s₀.nets.byName
  leases : ∀ ref x, ref ≠ n ∨ x ≠ id → s.leaseAt ref x = s₀.leaseAt ref x
  named : (s.record e).id = id ∧ (s.record e).spec.network = name
  owner : ∀ e', (s.entries e').owner = some t → e' = e

end System

/-- The id of a new VM names no directory and no volume and holds no lease of its network. -/
def Op.DrawsNew (s : System) : Op → Prop
  | .allocate id _ _ spec =>
    s.dirExists id = false ∧ s.host.volumes.get id = none ∧ s.nets.leaseOf spec.network id = none
  | .undoAllocate id => s.dirExists id = false
  | _ => True

instance (s : System) (op : Op) : Decidable (op.DrawsNew s) := by
  induction op using Op.casesOn <;> delta Op.DrawsNew <;> infer_instance

namespace System

def DrewNew (s₀ : System) (t : Nat) (s : System) : Prop := ∀ o ∈ s.acts t, o.DrawsNew s₀

def Vacates (s₀ : System) (n : Nat) (id : String) : Prop := s₀.belongings id = {} ∧ s₀.leaseAt n id = none

structure Within (s₀ : System) (t e n : Nat) (id name : String) (s : System) : Prop
    extends Around s₀ t e n id name s where
  draws : s₀.DrewNew t s ↔ s₀.Vacates n id

theorem drewNew_effect : s₀.DrewNew t (s.effect t op) ↔ op.DrawsNew s₀ ∧ s₀.DrewNew t s := by
  unfold DrewNew
  rw [acts_effect]
  by_cases hread : op.isRead = true
  · cases op with
    | read =>
      have hnew : Op.read.DrawsNew s₀ := trivial
      rw [if_neg fun h => Bool.noConfusion h.2, and_iff_right hnew]
    | _ => cases hread
  · rw [if_pos ⟨rfl, Bool.not_eq_true _ ▸ hread⟩, forall_mem_cons]

theorem belongings_frame (hwrites : ∀ e u, op.writes s e = some u → (s.record e).id ≠ id)
    (hop : op.about ≠ some id) : (s.effect t op).belongings id = s.belongings id := by
  have hdir : op.dir ≠ some id := by
    cases op with
    | allocate | removeDir | undoAllocate => exact hop
    | _ => nofun
  have hne : ∀ {x : String}, some x ≠ some id → id ≠ x := fun h heq => h (congrArg some heq.symm)
  have hrest : { (s.effect t op).belongings id with record := none } =
      { s.belongings id with record := none } := by
    cases op with
    | allocate x | loadEntry x =>
      simp only [belongings, effect, apply, addEntry, get_insert, if_neg (hne hop)]
    | removeDir x | undoAllocate x | remove x =>
      simp only [belongings, effect, apply, get_erase, if_neg (hne hop)]
    | host o =>
      cases o with
      | writeFile x | writeUserData x | writeReport x | createVolume x =>
        simp only [belongings, effect, apply, HostOp.apply, get_insert, if_neg (hne hop)]
      | deleteVolume x ok =>
        cases ok with
        | true => simp only [belongings, effect, apply, HostOp.apply, get_erase, if_neg (hne hop), if_true]
        | false => rfl
      | _ => rfl
    | _ => rfl
  calc (s.effect t op).belongings id
      = { { (s.effect t op).belongings id with record := none } with record := s.disk.get id } := by
        simp only [belongings, Inv.disk_frame hwrites hdir]
    _ = s.belongings id := by rw [hrest]; rfl

theorem dirExists_congr (h : s'.belongings id = s.belongings id) : s'.dirExists id = s.dirExists id := by
  simp only [belongings, Belongings.mk.injEq] at h
  obtain ⟨-, hdisk, hfiles, huser, hreport, -⟩ := h
  simp only [dirExists, hdisk, hfiles, huser, hreport]

end System

def Op.Confined (e n : Nat) (id : String) : Op → Prop
  | .read | .returned => True
  | .lock e' | .unlock e' | .update e' _ | .runtimeStart e' _ _ _ | .release e' _ => e' = e
  | .remove x | .removeDir x => x = id
  | .host (.writeFile x) | .host (.writeUserData x _) | .host (.createVolume x)
  | .host (.deleteVolume x _) => x = id
  | .host (.startTPM _ _) | .host (.stopTPM _) | .host (.writeNetworks _) | .host .writeFailed => True
  | .net (.attach _ n' x _) | .net (.detach _ n' x) => n' = n ∧ x = id
  | .forward (.close _) => True
  | _ => False

namespace System

theorem leaseAt_attach {m : Network.Manager} {ref : Nat} {x : String} (h : ref ≠ n ∨ x ≠ id) :
    ((m.attach n id).net ref).bind (fun y => y.leases.get x) =
      (m.net ref).bind fun y => y.leases.get x := by
  cases hn : m.net n with
  | none => simp only [Network.Manager.attach, hn]
  | some net =>
    cases ha : net.attach id with
    | error err => simp only [Network.Manager.attach, hn, ha]
    | ok r =>
      rw [Network.Manager.attach_eq hn ha, Network.Manager.net_set]
      split
      · subst ref
        rw [hn]
        exact (Network.Net.attach_ok ha).others x (h.resolve_left fun hne => hne rfl)
      · rfl

theorem leaseAt_detach (m : Network.Manager) (ref : Nat) (x : String) :
    ((m.detach n id).net ref).bind (fun y => y.leases.get x) =
      if ref = n ∧ x = id then none else (m.net ref).bind fun y => y.leases.get x := by
  cases hn : m.net n with
  | none =>
    simp only [Network.Manager.detach, hn]
    split
    · rename_i h
      rw [h.1, hn]
      rfl
    · rfl
  | some net =>
    rw [Network.Manager.detach_eq hn, Network.Manager.net_set]
    by_cases href : ref = n
    · subst href
      rw [if_pos rfl, bind_some, hn, bind_some, Network.Net.detach_get]
      by_cases hx : x = id <;> simp [hx]
    · rw [if_neg href, if_neg fun h => href h.1]

namespace Around

theorem frame (h : s₀.Around t e n id name s) (hb : ∀ x, x ≠ id → s'.belongings x = s.belongings x)
    (hn : s'.nets = s.nets) (he : s'.record e = s.record e)
    (ho : ∀ e', (s'.entries e').owner = (s.entries e').owner) : s₀.Around t e n id name s' where
  others x hx := (hb x hx).trans (h.others x hx)
  networks := hn ▸ h.networks
  leases ref x hx := by
    rw [leaseAt, hn]
    exact h.leases ref x hx
  named := he ▸ h.named
  owner e' he' := h.owner e' ((ho e').symm.trans he')

theorem under (h : s₀.Around t e n id name s) (hb : ∀ x, x ≠ id → s'.belongings x = s.belongings x)
    (hn : s'.nets = s.nets) (hent : s'.entries = s.entries) : s₀.Around t e n id name s' :=
  h.frame hb hn (congrArg (fun es => (es e).record) hent) fun e' => congrArg (fun es => (es e').owner) hent

theorem entry (h : s₀.Around t e n id name s) (hb : ∀ x, x ≠ id → s'.belongings x = s.belongings x)
    (hn : s'.nets = s.nets) {x : Entry} (hent : s'.entries = update s.entries e x)
    (hr : x.record = s.record e) (ho : x.owner = (s.entries e).owner) :
    s₀.Around t e n id name s' := by
  refine h.frame hb hn ?_ fun e' => ?_
  · rw [record, hent, update_self]
    exact hr
  · rw [hent, update_apply]
    split
    · subst e'
      exact ho
    · rfl

theorem update (h : s₀.Around t e n id name s) (u : Update)
    (hb : ∀ x, x ≠ id → (s.effect t (.update e u)).belongings x = s.belongings x) :
    s₀.Around t e n id name (s.effect t (.update e u)) where
  others x hx := (hb x hx).trans (h.others x hx)
  networks := h.networks
  leases := h.leases
  named := by
    rw [s.update_record, VM.update_id, VM.update_spec]
    exact h.named
  owner e' he' := by
    refine h.owner e' ?_
    by_cases hne : e' = e
    · subst hne
      rw [s.update_entry] at he'
      exact he'
    · have hent : (s.effect t (.update e u)).entries e' = s.entries e' := update_of_ne hne ..
      rw [hent] at he'
      exact he'

theorem attach (h : s₀.Around t e n id name s) (e' : Nat) (ip : Network.Addr) :
    s₀.Around t e n id name (s.effect t (.net (.attach e' n id ip))) where
  others x hx := h.others x hx
  networks := (Network.Manager.attach_byName ..).trans h.networks
  leases ref x hx := (leaseAt_attach hx).trans (h.leases ref x hx)
  named := h.named
  owner := h.owner

theorem detach (h : s₀.Around t e n id name s) (e' : Nat) :
    s₀.Around t e n id name (s.effect t (.net (.detach e' n id))) where
  others x hx := h.others x hx
  networks := (Network.Manager.detach_byName ..).trans h.networks
  leases ref x hx := by
    have hne : ¬ (ref = n ∧ x = id) := fun hboth => hx.elim (· hboth.1) (· hboth.2)
    exact ((leaseAt_detach s.nets ref x).trans (if_neg hne)).trans (h.leases ref x hx)
  named := h.named
  owner := h.owner

theorem effect (h : s₀.Around t e n id name s) (hop : op.Confined e n id) :
    s₀.Around t e n id name (s.effect t op) := by
  have hb : ∀ x, x ≠ id → (s.effect t op).belongings x = s.belongings x := by
    intro x hx
    refine belongings_frame (fun e' u hw => ?_) fun habout => ?_
    · rcases Op.writes_cases hw with rfl | ⟨phase, hs, rfl, -⟩ | ⟨p, exit, timeout, c, rfl, -⟩
      · cases hop
        exact h.named.1 ▸ hx.symm
      · exact hop.elim
      · exact hop.elim
    · cases op with
      | remove | removeDir => exact hx (some.inj habout ▸ hop)
      | host o =>
        cases o with
        | writeFile | writeUserData | createVolume | deleteVolume =>
          exact hx (some.inj habout ▸ hop)
        | writeReport => exact hop
        | _ => cases habout
      | allocate | undoAllocate | loadEntry => exact hop
      | _ => cases habout
  cases op with
  | lock | unlock | release =>
    cases hop
    exact h.entry hb rfl rfl rfl rfl
  | update e' u =>
    cases hop
    exact h.update u hb
  | net o =>
    cases o with
    | attach e' n' x ip =>
      obtain ⟨rfl, rfl⟩ := hop
      exact h.attach e' ip
    | detach e' n' x =>
      obtain ⟨rfl, rfl⟩ := hop
      exact h.detach e'
    | _ => exact hop.elim
  | read | returned | remove | removeDir | host | runtimeStart => exact h.under hb rfl rfl
  | forward o =>
    cases o with
    | close => exact h.under hb rfl rfl
    | _ => exact hop.elim
  | _ => exact hop.elim

theorem get (h : s₀.Around t e n id name s) (hn : s₀.nets.get name = some n) :
    s.nets.get name = some n := by
  rw [Network.Manager.get, h.networks]
  exact hn

end Around

namespace Within

theorem effect (h : s₀.Within t e n id name s) (hop : op.Confined e n id) : s₀.Within t e n id name (s.effect t op) where
  toAround := h.toAround.effect hop
  draws := by
    have hnew : op.DrawsNew s₀ := by
      cases op with
      | allocate | undoAllocate => exact hop.elim
      | _ => trivial
    rw [drewNew_effect, and_iff_right hnew]
    exact h.draws

theorem outside (h : s₀.Within t e n id name s) (hs : s.Aside s') : s₀.Within t e n id name s' := by
  obtain ⟨_, _, _, _, _, _, rfl⟩ := hs
  exact { h with }

end Within

end System

theorem undisturbed {K : System → Event → Prop} {P : System → Prop}
    (h : ∀ s s', s.Aside s' → P s → P s') : (service cfg).Undisturbed K P := by
  intro s x k s' l hx hh _ hP
  obtain ⟨s₁, hs₁, rfl, -⟩ := outside_cases hx
  have hne : x ≠ .crash := by
    rintro rfl
    cases hh
  obtain ⟨qemus, clock, writable, up, loader, rfl, -⟩ := outside_eq hs₁ hne
  exact h s _ ⟨qemus, clock, writable, up, loader, x, rfl⟩ hP

section Confined
variable {K : System → Event → Prop} {α : Type}
attribute [local grind] Op.Confined

abbrev KeepsGo (cfg : Config) (K : System → Event → Prop) (t : Nat) (W : System → Prop) (x : Go α) : Prop :=
  (service cfg).Solo K t W x fun _ => W

abbrev KeepsE (cfg : Config) (K : System → Event → Prop) (t : Nat)
    (W : System → Prop) (x : GoE α) : Prop :=
  (service cfg).Solo K t W x.run (Post (fun _ => W) W)

theorem confined_step {f : Nat → Answer → System → Option (Op × α)} {F : α → Prop}
    (h : ∀ {s i o a}, s₀.Within t e n id name s → f t i s = some (o, a) → o.Confined e n id ∧ F a) :
    (service cfg).Solo K t (s₀.Within t e n id name) (Proc.step f)
      fun a s => F a ∧ s₀.Within t e n id name s := by
  refine .step (undisturbed fun _ _ hs hw => hw.outside hs) fun hw hf _ => ?_
  obtain ⟨hop, hF⟩ := h hw hf
  exact ⟨hF, hw.effect hop⟩

theorem confined_any {f : Nat → Answer → System → Option (Op × α)}
    (h : ∀ {s i o a}, s₀.Within t e n id name s → f t i s = some (o, a) → o.Confined e n id) :
    KeepsGo cfg K t (s₀.Within t e n id name) (Proc.step f) :=
  .step (undisturbed fun _ _ hs hw => hw.outside hs) fun hw hf _ =>
    hw.effect (h hw hf)

theorem confined_stepE {f : Nat → Answer → System → Option (Op × Except String α)}
    (h : ∀ {s i o a}, s₀.Within t e n id name s → f t i s = some (o, a) → o.Confined e n id) :
    KeepsE cfg K t (s₀.Within t e n id name) (Proc.step f) := by
  refine .weaken (confined_any h) fun a s hw => ?_
  cases a with
  | ok | error => exact hw

theorem confined_perform {o : Op} (h : o.Confined e n id) :
    KeepsGo cfg K t (s₀.Within t e n id name) (perform o) := by
  refine confined_any fun _ hf => ?_
  cases hf
  exact h

theorem record_solo : (service cfg).Solo K t (s₀.Within t e n id name) (record e)
    fun r s => (r.id = id ∧ r.spec.network = name) ∧ s₀.Within t e n id name s := by
  refine confined_step fun hw hf => ?_
  cases hf
  exact ⟨trivial, hw.named⟩

theorem getNetwork_solo (hn : s₀.nets.get name = some n) :
    (service cfg).Solo K t (s₀.Within t e n id name) (getNetwork name).run
      (Post (fun n' s => n' = n ∧ s₀.Within t e n id name s) (s₀.Within t e n id name)) := by
  refine .weaken (confined_step (F := fun r => ∀ n', r = .ok n' → n' = n)
    fun hw hf => ?_) fun r s hw => ?_
  · split at hf <;> cases hf
    refine ⟨trivial, fun n' hr => ?_⟩
    simp only [hw.get hn] at hr
    cases hr
    rfl
  · cases r with
    | ok n' => exact ⟨hw.1 n' rfl, hw.2⟩
    | error err => exact hw.2

theorem attachNetwork_solo : KeepsE cfg K t (s₀.Within t e n id name) (attachNetwork e n id) :=
  confined_stepE (by grind)

theorem persistNetworks_solo : KeepsE cfg K t (s₀.Within t e n id name) persistNetworks :=
  .bind (confined_any (by grind)) fun _ => confined_stepE (by grind)

theorem provision_solo : KeepsE cfg K t (s₀.Within t e n id name) (provision e n) := by
  refine .bindE (.liftE record_solo) fun r => .given fun hr => ?_
  obtain ⟨rfl, rfl⟩ := hr
  refine .bindE (confined_stepE (by grind)) fun pub => ?_
  refine .bindE (confined_stepE fun hw => by grind [hw.named]) fun _ => ?_
  refine .bindE (confined_stepE (by grind)) fun _ => .bindE (confined_stepE (by grind)) fun _ => ?_
  refine .bindE (.liftE (confined_perform rfl)) fun _ => ?_
  refine .bindE attachNetwork_solo fun ip => ?_
  exact .bindE (.liftE (confined_perform rfl)) fun _ => persistNetworks_solo

theorem abandonStart_solo (tpm cid : Nat) : KeepsGo cfg K t (s₀.Within t e n id name) (abandonStart e .install tpm cid) :=
  .bind (confined_perform (o := .host (.stopTPM tpm)) trivial) fun _ =>
    .pure fun _ hw => hw

theorem startFailed_solo (tpm cid : Nat) (err : String) :
    KeepsE cfg K t (s₀.Within t e n id name) (startFailed e .install tpm cid err) :=
  .bindE (.liftE (abandonStart_solo tpm cid)) fun _ =>
    .throwE fun _ hw => hw

theorem nextCID_solo (tpm cid : Nat) (err : String) :
    KeepsE cfg K t (s₀.Within t e n id name) (nextCID e .install tpm cid err) := by
  refine .bindE (Q := fun _ => s₀.Within t e n id name)
    (.liftE (confined_any (by grind))) fun r => ?_
  cases r with
  | error rerr => exact .bindE (.liftE (abandonStart_solo tpm cid)) fun _ => .throwE fun _ hw => hw
  | ok next => exact .pureE fun _ hw => hw

theorem runtimeStart_solo (cid : Nat) : KeepsGo cfg K t (s₀.Within t e n id name) (runtimeStart e .install cid) :=
  confined_any (by grind)

theorem startQemu_solo (tpm retries cid : Nat) :
    KeepsE cfg K t (s₀.Within t e n id name) (startQemu e .install tpm retries cid) := by
  induction retries generalizing cid with
  | zero =>
    refine .bindE (.liftE (runtimeStart_solo cid)) fun r => ?_
    cases r with
    | ok q => exact .pureE fun _ hw => hw
    | error err => exact startFailed_solo tpm cid err
  | succ retries ih =>
    refine .bindE (.liftE (runtimeStart_solo cid)) fun r => ?_
    cases r with
    | ok q => exact .pureE fun _ hw => hw
    | error err =>
      refine .ite (fun _ => ?_) fun _ => startFailed_solo tpm cid err
      exact .bindE (nextCID_solo tpm cid err) fun next => ih next

theorem startProcess_solo (hn : s₀.nets.get name = some n) :
    KeepsE cfg K t (s₀.Within t e n id name) (startProcess e .install) := by
  refine .bindE (.liftE record_solo) fun r => .given fun hr => ?_
  obtain ⟨rfl, rfl⟩ := hr
  refine .bindE (getNetwork_solo hn) fun n' => .given fun hn' => ?_
  subst hn'
  refine .bindE attachNetwork_solo fun ip => ?_
  refine .bindE (confined_stepE (by grind)) fun tpm => ?_
  exact .bindE (.liftE (.pure fun _ hw => hw)) fun _ =>
    startQemu_solo tpm maxCIDRetries r.cid

end Confined

/-- No I/O error in the clean-up: the volume and the directory can be deleted, and networks.json can be
written once the VM is out of the service. -/
def CleansUp (s : System) : Event → Prop
  | .op _ (.host (.deleteVolume _ ok)) => ok = true
  | .op _ (.host (.removeFailed _)) => False
  | .op t (.host .writeFailed) => ∃ e, (s.entries e).owner = some t ∧ s.Present e
  | _ => True

structure System.Swept (s₀ : System) (t e n : Nat) (id name : String) (C : Belongings → Prop)
    (s : System) : Prop where
  within : s₀.Within t e n id name s
  lease : s.leaseAt n id = none
  left : C (s.belongings id)

def System.Undone (s₀ : System) (t e n : Nat) (id name : String) (s : System) : Prop :=
  s₀.Swept t e n id name (· = {}) s ∧ s.host.networksFile = s.nets.states

namespace System
variable {C : Belongings → Prop}

theorem Swept.outside (h : s₀.Swept t e n id name C s) (hs : s.Aside s') :
    s₀.Swept t e n id name C s' := by
  have hw := h.within.outside hs
  obtain ⟨_, _, _, _, _, _, rfl⟩ := hs
  exact ⟨hw, h.lease, h.left⟩

theorem Undone.outside (h : s₀.Undone t e n id name s) (hs : s.Aside s') :
    s₀.Undone t e n id name s' := by
  have hswept := h.1.outside hs
  obtain ⟨_, _, _, _, _, _, rfl⟩ := hs
  exact ⟨hswept, h.2⟩

theorem Undone.preserved (h : s₀.Undone t e n id name s) : s₀.Preserved s ↔ s₀.DrewNew t s := by
  rw [h.1.within.draws]
  constructor
  · intro hp
    exact ⟨(hp.belongings id).symm.trans h.1.left, (hp.leases n id).symm.trans h.1.lease⟩
  · intro hid
    refine ⟨fun x => ?_, h.1.within.networks, fun ref x => ?_, .inr h.2⟩
    · by_cases hx : x = id
      · subst hx
        rw [h.1.left, hid.1]
      · exact h.1.within.others x hx
    · by_cases hboth : ref = n ∧ x = id
      · obtain ⟨rfl, rfl⟩ := hboth
        rw [h.1.lease, hid.2]
      · exact h.1.within.leases ref x (not_and_or.1 hboth)

def Judged (s₀ : System) (t : Nat) (s : System) : Prop := s₀.Preserved s ↔ s₀.DrewNew t s

theorem Preserved.congr (hb : s'.belongings = s.belongings) (hn : s'.nets = s.nets)
    (hf : s'.host.networksFile = s.host.networksFile) : s₀.Preserved s' ↔ s₀.Preserved s := by
  have hl : s'.leaseAt = s.leaseAt := by unfold leaseAt; rw [hn]
  exact ⟨fun h => ⟨hb ▸ h.belongings, hn ▸ h.networks, hl ▸ h.leases, hf ▸ hn ▸ h.saved⟩,
    fun h => ⟨hb ▸ h.belongings, hn ▸ h.networks, hl ▸ h.leases, hf ▸ hn ▸ h.saved⟩⟩

theorem Judged.outside (h : s₀.Judged t s) (hs : s.Aside s') : s₀.Judged t s' := by
  obtain ⟨_, _, _, _, _, _, rfl⟩ := hs
  exact Iff.trans (b := s₀.Preserved s) (Preserved.congr rfl rfl rfl) h

end System

section CleanUp
variable {K : System → Event → Prop} {C : Belongings → Prop}

theorem swept_step {α : Type} {f : Nat → Answer → System → Option (Op × α)} {C' : Belongings → Prop}
    (h : ∀ {s i o a}, s₀.Swept t e n id name C s → f t i s = some (o, a) → K s (.op t o) →
      o.Confined e n id ∧ (s.effect t o).nets = s.nets ∧ C' ((s.effect t o).belongings id)) :
    (service cfg).Solo K t (s₀.Swept t e n id name C) (Proc.step f)
      fun _ => s₀.Swept t e n id name C' := by
  refine .step (undisturbed fun _ _ hs hw => hw.outside hs) fun {s i o a} hw hf hk => ?_
  obtain ⟨hop, hnets, hleft⟩ := h hw hf hk
  refine ⟨hw.within.effect hop, ?_, hleft⟩
  have hlease : (s.effect t o).leaseAt n id = s.leaseAt n id := by rw [leaseAt, hnets]; rfl
  exact hlease.trans hw.lease

theorem closeForwards_solo (ks : List Nat) : KeepsGo cfg K t (s₀.Within t e n id name) (closeForwards ks) := by
  induction ks with
  | nil => exact .pure fun _ hw => hw
  | cons k ks ih =>
    exact .bind (confined_perform (o := .forward (.close k)) trivial) fun _ => ih

theorem detachNetwork_solo (hn : s₀.nets.get name = some n) :
    (service cfg).Solo K t (s₀.Within t e n id name) (detachNetwork e name id)
      fun _ => s₀.Swept t e n id name fun _ => True := by
  refine .bind (confined_step (F := fun r => r = some n) fun {s i o a} hw hf => ?_)
    fun r => .given fun hr => ?_
  · split at hf <;> cases hf
    exact ⟨trivial, hw.get hn⟩
  · subst hr
    refine .step (undisturbed fun _ _ hs hw => hw.outside hs) fun {s i o a} hw hf _ => ?_
    cases hf
    exact ⟨hw.effect ⟨rfl, rfl⟩, (leaseAt_detach s.nets n id).trans (if_pos ⟨rfl, rfl⟩), trivial⟩

theorem deleteVolume_solo (hK : ∀ s ev, K s ev → CleansUp s ev) :
    (service cfg).Solo K t (s₀.Swept t e n id name fun _ => True) (deleteVolume id)
      fun _ => s₀.Swept t e n id name fun b => b.volume = none := by
  refine swept_step fun _ hf hk => ?_
  have hclean := hK _ _ hk
  split at hf <;> cases hf
  · exact ⟨rfl, rfl, (get_erase ..).trans (if_pos rfl)⟩
  · cases hclean

theorem removeDir_solo (hK : ∀ s ev, K s ev → CleansUp s ev) :
    (service cfg).Solo K t (s₀.Swept t e n id name fun b => b.volume = none) (removeDir id)
      fun _ => s₀.Swept t e n id name fun b => b = { entry := b.entry } := by
  refine swept_step fun {s i o a} hw hf hk => ?_
  have hclean := hK _ _ hk
  split at hf <;> cases hf
  · have hvolume : s.host.volumes.get id = none := hw.left
    refine ⟨rfl, rfl, ?_⟩
    simp only [System.belongings, System.effect, apply, get_erase, if_true, hvolume]
  · cases hclean

theorem teardown_solo (hK : ∀ s ev, K s ev → CleansUp s ev) (hn : s₀.nets.get name = some n) :
    (service cfg).Solo K t (s₀.Within t e n id name) (teardown e)
      fun _ => s₀.Swept t e n id name fun b => b = { entry := b.entry } := by
  refine .bind record_solo fun r => .given fun hr => ?_
  obtain ⟨rfl, rfl⟩ := hr
  refine .bind (confined_any fun _ hf => ?_) fun ks => ?_
  · cases hf
    rfl
  refine .bind (closeForwards_solo ks) fun _ => ?_
  refine .bind (detachNetwork_solo hn) fun _ => ?_
  exact .bind (deleteVolume_solo hK) fun _ => removeDir_solo hK

theorem persistNetworks_undone (hK : ∀ s ev, K s ev → CleansUp s ev) :
    (service cfg).Solo K t (s₀.Swept t e n id name (· = {})) persistNetworks.run
      fun _ => s₀.Undone t e n id name := by
  refine .bind (Q := fun states s => s₀.Swept t e n id name (· = {}) s ∧
    states = s.nets.states) (.step (undisturbed fun _ _ hs hw => hw.outside hs)
      fun {s i o a} hw hf _ => ?_) fun states => .step (undisturbed fun _ _ hs hw =>
        by
          obtain ⟨_, _, _, _, _, _, rfl⟩ := hs
          exact ⟨hw.1.outside ⟨_, _, _, _, _, _, rfl⟩, hw.2⟩) fun {s i o a} hw hf hk => ?_
  · split at hf <;> cases hf
    exact ⟨⟨hw.within.effect trivial, hw.lease, hw.left⟩, rfl⟩
  · split at hf <;> cases hf
    · exact ⟨⟨hw.1.within.effect trivial, hw.1.lease, hw.1.left⟩, hw.2⟩
    · obtain ⟨e', howner, hpresent⟩ := hK _ _ hk
      obtain rfl := hw.1.within.owner e' howner
      rw [Present, hw.1.within.named.1] at hpresent
      have hgone : s.vms.get id = none := congrArg Belongings.entry hw.1.left
      rw [hgone] at hpresent
      cases hpresent

theorem discard_solo (hK : ∀ s ev, K s ev → CleansUp s ev) (hn : s₀.nets.get name = some n) :
    (service cfg).Solo K t (s₀.Within t e n id name) (discard e)
      fun _ => s₀.Undone t e n id name := by
  refine .bind record_solo fun r => .given fun hr => ?_
  obtain ⟨rfl, -⟩ := hr
  refine .bind (teardown_solo hK hn) fun _ => ?_
  refine .bind (Q := fun _ => s₀.Swept t e n r.id name (· = {}))
    (swept_step fun {s i o a} hw hf _ => ?_) fun _ => ?_
  · cases hf
    refine ⟨rfl, rfl, ?_⟩
    have hbare : s.belongings r.id = { entry := s.vms.get r.id } := hw.left
    simp only [System.belongings, Belongings.mk.injEq] at hbare
    simp only [System.belongings, System.effect, apply, get_erase, if_true, hbare]
  · exact .bind (persistNetworks_undone hK) fun _ => .pure fun _ hw => hw

theorem launch_solo (hK : ∀ s ev, K s ev → CleansUp s ev) (hn : s₀.nets.get name = some n) :
    (service cfg).Solo K t (s₀.Within t e n id name) (launch e n).run
      (Post (fun _ _ => True) (s₀.Undone t e n id name)) := by
  refine .bind (confined_any fun _ hf => ?_) fun _ => ?_
  · split at hf <;> cases hf
    rfl
  have hstart : KeepsE cfg K t (s₀.Within t e n id name) (provisionAndStart e n) :=
    .bindE provision_solo fun _ => startProcess_solo hn
  refine .bind hstart fun r => ?_
  cases r with
  | error err =>
    refine .bind (discard_solo hK hn) fun _ => ?_
    refine .bind (Q := fun _ => s₀.Undone t e n id name) (.step
      (undisturbed fun _ _ hs hw => hw.outside hs) fun hw hf _ => ?_) fun _ =>
        .pure fun _ hw => hw
    cases hf
    exact ⟨⟨hw.1.within.effect rfl, hw.1.lease, hw.1.left⟩, hw.2⟩
  | ok h =>
    have hcalm : (service cfg).Undisturbed K fun _ => True := fun _ _ _ _ _ _ _ _ h => h
    refine .bind (Q := fun _ _ => True) (.step
      (undisturbed fun _ _ hs hw => hw.outside hs) fun _ _ _ => trivial) fun p => ?_
    refine .bind (Q := fun _ _ => True)
      (.spawn hcalm fun _ _ _ => trivial) fun _ => ?_
    exact .bind (Q := fun _ _ => True)
      (.step hcalm fun _ _ _ => trivial) fun _ => .pure fun _ h => h

end CleanUp

theorem System.of_dirExists (h : s.dirExists id = false) : s.disk.get id = none ∧
    s.host.files.get id = none ∧ s.host.userDataFiles.get id = none ∧ s.host.reports.get id = none := by
  simpa only [dirExists, Bool.or_eq_false_iff, isSome_eq_false_iff, isNone_iff_eq_none, and_assoc] using h

structure System.Untouched (s₀ : System) (t : Nat) (s : System) : Prop where
  entries : s.entries = s₀.entries
  vms : s.vms = s₀.vms
  nets : s.nets = s₀.nets
  host : s.host = s₀.host
  disk : s.disk = s₀.disk
  draws : s₀.DrewNew t s

namespace System.Untouched

theorem outside (h : s₀.Untouched t s) (hs : s.Aside s') : s₀.Untouched t s' := by
  obtain ⟨_, _, _, _, _, _, rfl⟩ := hs
  exact { h with }

theorem read (h : s₀.Untouched t s) : s₀.Untouched t (s.effect t .read) :=
  { h with draws := drewNew_effect.2 ⟨trivial, h.draws⟩ }

theorem belongings (h : s₀.Untouched t s) (x : String) : s.belongings x = s₀.belongings x := by
  simp only [System.belongings, h.host, h.disk, h.vms]

theorem judged (h : s₀.Untouched t s) : s₀.Judged t s := by
  refine iff_of_true ?_ h.draws
  refine ⟨h.belongings, congrArg Network.Manager.byName h.nets, fun ref x => ?_,
    .inl (congrArg Host.networksFile h.host)⟩
  rw [leaseAt, h.nets]
  rfl

theorem dirExists (h : s₀.Untouched t s) (x : String) : s.dirExists x = s₀.dirExists x :=
  dirExists_congr (h.belongings x)

theorem allocate (h : s₀.Untouched t s) (hnew : ∀ e, (s₀.entries e).owner ≠ some t)
    (machineID : String) (cid : Nat) (spec : Spec) :
    s₀.Around t s.nextEntry n id spec.network (s.effect t (.allocate id machineID cid spec)) where
  others x hx := by
    rw [← h.belongings x]
    simp only [System.belongings, effect, apply, addEntry, get_insert, if_neg hx]
  networks := congrArg Network.Manager.byName h.nets
  leases ref x _ := by
    have hnets : (s.effect t (.allocate id machineID cid spec)).nets = s₀.nets := h.nets
    rw [leaseAt, hnets]
    rfl
  named := by
    have hrec : (s.effect t (.allocate id machineID cid spec)).record s.nextEntry =
        s.newVM id machineID cid spec := by
      simp [effect, apply, addEntry, record]
    rw [hrec]
    exact ⟨rfl, rfl⟩
  owner e' he' := by
    by_contra hne
    have hent : (s.effect t (.allocate id machineID cid spec)).entries e' = s.entries e' := update_of_ne hne ..
    rw [hent, h.entries] at he'
    exact hnew e' he'

theorem undoAllocate (h : s₀.Untouched t s) (id : String) : s₀.Judged t (s.effect t (.undoAllocate id)) := by
  rw [Judged, drewNew_effect, and_iff_left h.draws]
  constructor
  · intro hp
    refine (dirExists_congr (hp.belongings id)).symm.trans ?_
    simp [System.dirExists, effect, apply, get_erase]
  · intro hdir
    have hnets : (s.effect t (.undoAllocate id)).nets = s₀.nets := h.nets
    have hfile : s.host.networksFile = s₀.host.networksFile := congrArg Host.networksFile h.host
    refine ⟨fun x => ?_, congrArg Network.Manager.byName hnets, fun ref x => ?_, .inl hfile⟩
    · obtain ⟨hdisk, hfiles, huser, hreports⟩ := of_dirExists ((h.dirExists id).trans hdir)
      rw [← h.belongings x]
      by_cases hx : x = id
      · subst hx
        simp only [System.belongings, effect, apply, get_erase, if_pos, hdisk, hfiles, huser, hreports]
      · simp only [System.belongings, effect, apply, get_erase, if_neg hx]
    · rw [leaseAt, hnets]
      rfl

theorem vacates (h : s₀.Untouched t s) (hvm : s.vms.get id = none) (machineID : String) (cid : Nat) (spec : Spec)
    (hn : s₀.nets.get spec.network = some n) :
    (Op.allocate id machineID cid spec).DrawsNew s₀ ↔ s₀.Vacates n id := by
  have hlease : s₀.nets.leaseOf spec.network id = none ↔ s₀.leaseAt n id = none := by
    simp only [Network.Manager.leaseOf, leaseAt, hn, bind_eq_bind, bind_some]
    cases s₀.nets.net n with
    | none => exact iff_of_true rfl rfl
    | some net =>
      rw [bind_some, bind_some]
      cases net.leases.get id with
      | none => exact iff_of_true rfl rfl
      | some ip => exact iff_of_false (some_ne_none _) (some_ne_none _)
  rw [h.vms] at hvm
  change (_ ∧ _ ∧ _) ↔ _ ∧ _
  rw [hlease, ← and_assoc]
  refine and_congr_left' ?_
  simp only [System.belongings, System.dirExists, Belongings.mk.injEq, Bool.or_eq_false_iff, isSome_eq_false_iff,
    isNone_iff_eq_none, hvm]
  tauto

end System.Untouched

section Create
variable {K : System → Event → Prop}

theorem allocate_solo (hnew : ∀ e, (s₀.entries e).owner ≠ some t) (spec : Spec)
    (hn : s₀.nets.get spec.network = some n) : (service cfg).Solo K t (s₀.Untouched t) (allocate cfg spec).run
      (Post (fun e s => ∃ id, s₀.Within t e n id spec.network s) (s₀.Judged t)) := by
  refine .step (undisturbed fun _ _ hs hw => hw.outside hs) fun {s i o a} hw hf _ => ?_
  have hread : s₀.Judged t (s.effect t .read) := hw.read.judged
  split at hf
  · cases hf
    exact hread
  split at hf
  · cases hf
    exact hread
  split at hf
  · rename_i id machineID
    split at hf
    · cases hf
    rename_i hfree
    rw [not_isSome_iff_eq_none] at hfree
    split at hf
    · cases hf
      refine ⟨id, hw.allocate hnew _ _ _, ?_⟩
      exact (drewNew_effect.trans (and_iff_left hw.draws)).trans (hw.vacates hfree _ _ spec hn)
    · cases hf
      exact hw.undoAllocate id
  · cases hf
    exact hread
  · cases hf

theorem create_solo (hclean : ∀ s ev, K s ev → CleansUp s ev)
    (hnew : ∀ e, (s₀.entries e).owner ≠ some t) (spec : Spec) :
    (service cfg).Solo K t (s₀.Untouched t) (create cfg spec).run
      (Post (fun _ _ => False) (s₀.Judged t)) := by
  have hpure : ∀ {α : Type} (r : Except String α), (service cfg).Solo K t (s₀.Untouched t)
      (Pure.pure r : Go (Except String α)) (Post (fun _ => s₀.Untouched t) (s₀.Judged t)) := by
    intro α r
    refine .pure fun s hs => ?_
    cases r with
    | ok => exact hs
    | error => exact hs.judged
  refine .bindE (hpure _) fun _ => .bindE (hpure _) fun x => ?_
  refine .bindE (Q := fun n s => s₀.nets.get x.1.network = some n ∧ s₀.Untouched t s)
    (.step (undisturbed fun _ _ hs hw => hw.outside hs) fun {s i o a} hw hf _ => ?_)
    fun n => .given fun hn => ?_
  · split at hf <;> cases hf
    beta_reduce
    rw [hw.nets]
    cases hget : s₀.nets.get x.1.network with
    | some n => exact ⟨rfl, hw.read⟩
    | none => exact hw.read.judged
  refine .bindE (allocate_solo hnew x.1 hn) fun e => ?_
  refine .bindE (Q := fun _ _ => True) ?_ fun _ =>
    .liftE .goto
  intro G k hk s hs
  obtain ⟨id, hw⟩ := hs
  refine launch_solo hclean hn G k (fun r s hr => hk r s ?_) s hw
  cases r with
  | ok => trivial
  | error => exact Undone.preserved hr

end Create

/-- A Create of a new goroutine that runs alone and ends with an error, from any state: every volume, directory and
lease is as before if and only if the id it drew, if it came to that, named no directory, no volume and no lease. A
Create whose installer is up does not end here, it goes on to `waitFor`. -/
theorem failed_create_preserves (cfg : Config) (spec : Spec) (t : Nat)
    (hnew : ∀ e, (s.entries e).owner ≠ some t) (hacts : s.acts t = [])
    (h : (service cfg).Alone CleansUp t s ((service cfg).body (.create spec)) s' .done) :
    s.Preserved s' ↔ ∀ o ∈ s'.acts t, o.DrawsNew s := by
  have hsolo : (service cfg).Solo CleansUp t (s.Untouched t) (ignore (create cfg spec)) fun _ => s.Judged t := by
    refine .bind (create_solo (fun _ _ hk => hk) hnew spec) fun r => ?_
    cases r with
    | ok => exact fun _ _ _ _ hfalse => hfalse.elim
    | error err =>
      refine .step (undisturbed fun _ _ hs hw => hw.outside hs) fun {s₁ i o a} hw hf _ => ?_
      cases hf
      have hsame : s.Preserved (s₁.effect t .returned) ↔ s.Preserved s₁ := Preserved.congr rfl rfl rfl
      have hnew : Op.returned.DrawsNew s := trivial
      exact (hsame.trans hw).trans (drewNew_effect.trans (and_iff_right hnew)).symm
  have hstart : s.DrewNew t s := by
    intro o ho
    rw [hacts] at ho
    cases ho
  exact hsolo.toProg ⟨rfl, rfl, rfl, rfl, rfl, hstart⟩ s' h

namespace Sample

def undoable (s : System) : Event → Bool
  | .op _ (.host (.deleteVolume _ ok)) => ok
  | .op _ (.host (.removeFailed _)) => false
  | .op t (.host .writeFailed) =>
    [0, 1].any fun e => (s.entries e).owner == some t && s.vms.get (s.record e).id == some e
  | _ => true

theorem cleansUp_of_undoable (h : undoable s ev = true) :
    CleansUp s ev := by
  unfold CleansUp
  split
  · exact h
  · cases h
  · obtain ⟨e, -, he⟩ := List.any_eq_true.1 h
    simp only [Bool.and_eq_true, beq_iff_eq] at he
    exact ⟨e, he⟩
  · trivial

/-- The environment's part in a Create of the VM "01": `before` is what it says until the step that
fails, and `after` what it says from there on. -/
def creation (before after : List (Answer ⊕ Outside)) : List (Answer ⊕ Outside) :=
  [.inl .ok, .inl (.ids "01" "machine"), .inl .ok, .inl .ok, .inl (.ids "key" "")] ++ before ++
    after ++ replicate 12 (.inl .ok)

def createsAlone (ok : System → Event → Bool) (t : Nat) (s : System)
    (answers : List (Answer ⊕ Outside)) : Option System :=
  (Machine.aloneWith ok (service config) t (t + 1) answers s
    ((service config).body (.create { name := "one", network := "a" }))).bind fun r =>
      match r.2 with
      | .done => some r.1
      | _ => none

theorem alone_of_createsAlone {ok : System → Event → Bool}
    {K : System → Event → Prop} (hok : ∀ s ev, ok s ev = true → K s ev)
    {answers : List (Answer ⊕ Outside)} (h : createsAlone ok t s answers = some s') : (service config).Alone K t s
      ((service config).body (.create { name := "one", network := "a" })) s' .done := by
  obtain ⟨⟨s₁, pr⟩, hrun, h⟩ := bind_eq_some_iff.1 h
  cases pr with
  | done =>
    cases h
    exact Machine.Alone.of_aloneWith hok hrun
  | _ => cases h

/-- A first Create whose clean-up cannot delete the volume: "01" is left without a VM. -/
def orphaned : List Move :=
  withNetwork ++ [.call (.create { name := "one", network := "a" })] ++ oks 2 1 ++
    [.go 2 (.ids "01" "machine")] ++ oks 2 2 ++ [.go 2 (.ids "key" "")] ++ oks 2 4 ++
    [.go 2 (.err "no address")] ++ oks 2 5 ++ [.go 2 (.err "busy")] ++ oks 2 6

end Sample
open Sample

theorem failed_create_preserves_unsaved :
    ∃ pool s', Machine.execWith (fun _ _ => true) (service config) withNetwork
        ⟨{}, []⟩ = some pool ∧
      createsAlone undoable 2 pool.shared
        (creation (replicate 7 (.inl .ok) ++ [.inr (.disk false)])
          [.inl .ok, .inr (.disk true)]) = some s' ∧ pool.shared.Preserved s' := by
  have hx : (((Machine.execWith (fun _ _ => true) (service config) withNetwork
      ⟨{}, []⟩)).any fun pool => pool.shared.nextEntry == 0 && (pool.shared.acts 2).isEmpty &&
        (createsAlone undoable 2 pool.shared
        (creation (replicate 7 (.inl .ok) ++ [.inr (.disk false)])
          [.inl .ok, .inr (.disk true)])).any fun s' => (s'.acts 2).all fun o =>
            decide (o.DrawsNew pool.shared)) = true := by decide +kernel
  obtain ⟨pool, hpool, hx⟩ := (Option.any_eq_true _ _).1 hx
  obtain ⟨hx, hsome⟩ := Bool.and_eq_true_iff.1 hx
  obtain ⟨hnone, hacts⟩ := Bool.and_eq_true_iff.1 hx
  obtain ⟨s', hs', hdraws⟩ := (Option.any_eq_true _ _).1 hsome
  have hnew : ∀ e, (pool.shared.entries e).owner ≠ some 2 := by
    intro e
    have hinv := (Runs.exec (K := fun _ _ => True) (fun _ _ _ => trivial) hpool).inv
    rw [hinv.freshEntry e (by rw [beq_iff_eq.1 hnone]; exact Nat.zero_le e)]
    exact some_ne_none 2 |>.symm
  refine ⟨pool, s', hpool, hs', (failed_create_preserves config _ 2 hnew (List.isEmpty_iff.1 hacts)
    (alone_of_createsAlone (fun _ _ hok => cleansUp_of_undoable hok) hs')).2 fun o ho => ?_⟩
  exact of_decide_eq_true (List.all_eq_true.1 hdraws o ho)

theorem failed_create_deletes_volume : ∃ pool s', Runs config (fun _ _ => True) pool ∧
      (service config).Alone CleansUp 3 pool.shared
        ((service config).body (.create { name := "one", network := "a" })) s' .done ∧
      pool.shared.host.volumes.get "01" = some () ∧ s'.host.volumes.get "01" = none := by
  have hx : ((Machine.execWith (fun _ _ => true) (service config) orphaned
      ⟨{}, []⟩).any fun pool => (pool.shared.host.volumes.get "01").isSome &&
        (createsAlone undoable 3 pool.shared
          (creation [.inl .ok, .inl .ok] [.inl (.err "conflict: volume 01 exists")])).any
          fun s' => (s'.host.volumes.get "01").isNone) = true := by decide +kernel
  obtain ⟨pool, hpool, hx⟩ := (Option.any_eq_true _ _).1 hx
  obtain ⟨hold, hx⟩ := Bool.and_eq_true_iff.1 hx
  obtain ⟨s', hs', hgone⟩ := (Option.any_eq_true _ _).1 hx
  refine ⟨pool, s', Runs.exec (fun _ _ _ => trivial) hpool,
    alone_of_createsAlone (fun _ _ hok => cleansUp_of_undoable hok) hs', ?_,
    isNone_iff_eq_none.1 hgone⟩
  obtain ⟨u, hu⟩ := isSome_iff_exists.1 hold
  exact hu

end VmManager.Vm
