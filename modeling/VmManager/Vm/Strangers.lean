import VmManager.Vm.Undo
import VmManager.Vm.Tracking

/-! Directories under vms/ that the service has no VM for, because their record cannot be read or because
a removal failed. Nothing the service does is about them, with one exception: the id of a new VM is drawn
without a look at the directories. -/
namespace VmManager.Vm
open Encoding Interleaving Option Vm.System List Bool GoMap
variable {cfg : Config} {s s' : System} {t e : Nat} {op : Op} {id id' : String} {ev : Event}

/-- A state directory as vm-manager may find it. The serial numbers are only in the model, where they tell
a record from none. -/
structure StateDir where
  disk : GoMap String VM := ∅
  host : Host := {}
  nextSerial : Nat := 1
  numbered : nextSerial ≠ 0 ∧ ∀ id r, disk.get id = some r → r.serial ≠ 0

def StateDir.system (d : StateDir) : System :=
  { disk := d.disk, host := d.host, nextSerial := d.nextSerial }

theorem StateDir.inv (d : StateDir) : Inv d.system :=
  { Inv.start with
    entry := fun _ => .dead rfl rfl
    serial := d.numbered.1
    disk := d.numbered.2 }

/-- No VM of the service has or had the id, and there is a directory of that name. -/
structure System.Strange (s : System) (id : String) : Prop where
  unknown : ∀ e, s.Alive e → (s.record e).id ≠ id
  dir : s.dirExists id = true

/-- The record in the directory, if there is one, is of another VM, so Load skips it. -/
def System.Unreadable (s : System) (id : String) : Prop := ∀ r, s.disk.get id = some r → r.id ≠ id

namespace System.Strange

theorem absent (h : s.Strange id) (hi : Inv s) : s.vms.get id = none := by
  by_contra hv
  obtain ⟨e, he⟩ := ne_none_iff_exists'.1 hv
  obtain ⟨ha, hid⟩ := hi.vms id e he
  exact h.unknown e ha hid

theorem ne_of_fresh (h : s.Strange id) (hf : s.dirExists id' = false) : id ≠ id' := by
  intro heq
  rw [← heq, h.dir] at hf
  cases hf

theorem ne_of_alive (h : s.Strange id) (ha : s.Alive e) (hid : (s.record e).id = id') :
    id ≠ id' := by
  intro heq
  exact h.unknown e ha (hid.trans heq.symm)

theorem ne_of_releases (h : s.Strange id) (hr : s.Releases t id') : id ≠ id' := by
  obtain ⟨e, hid, hy⟩ := hr
  exact h.ne_of_alive hy.1.2.1 hid

theorem belongings_kept (h : s.Strange id) (hi : Inv s) (hg : op.Guard cfg s t) (hf : op.FreshDir s)
    (hload : ∀ r, op ≠ .loadEntry id r) : (s.effect t op).belongings id = s.belongings id := by
  refine belongings_frame (fun e u hw => h.unknown e (Op.alive_of_writes hg hw)) fun habout => ?_
  cases op with
  | allocate | undoAllocate => exact h.ne_of_fresh hf (some.inj habout).symm
  | removeDir | remove => exact h.ne_of_releases hg (some.inj habout).symm
  | loadEntry id' r =>
    cases habout
    exact hload r rfl
  | host o =>
    cases o with
    | writeFile | writeUserData | createVolume =>
      obtain ⟨e, hid, ha, -⟩ := hg
      exact h.ne_of_alive ha hid (some.inj habout).symm
    | writeReport =>
      obtain ⟨-, e, hid, hp⟩ := hg
      exact h.ne_of_alive (hi.vms _ _ hp).1 hid (some.inj habout).symm
    | deleteVolume => exact h.ne_of_releases hg (some.inj habout).symm
    | _ => cases habout
  | _ => cases habout

theorem effect (h : s.Strange id) (hi : Inv s) (hg : op.Guard cfg s t) (hf : op.FreshDir s)
    (hload : ∀ r, op ≠ .loadEntry id r) : (s.effect t op).Strange id where
  unknown e ha := by
    rcases hi.alive_of_effect hg ha with hold | ⟨hadd, rfl⟩
    · rw [(hi.ident hg hold).1]
      exact h.unknown e hold
    · rcases Inv.record_added (s := s) (t := t) op hadd with ⟨id', m, cid, spec, rfl, hrec⟩ |
        ⟨id', r, rfl, hrec⟩
      · rw [hrec]
        exact (h.ne_of_fresh hf).symm
      · obtain ⟨-, -, -, hkey, -⟩ := hg
        rw [hrec, VM.loaded_id, hkey]
        intro heq
        exact hload r (heq ▸ rfl)
  dir := (dirExists_congr (h.belongings_kept hi hg hf hload)).trans h.dir

theorem outside (h : s.Strange id) (hi : Inv s) {x : Outside} {n : Nat}
    (hx : s.outside n x = some s') : Strange (s'.noting x s) id ∧
      belongings (s'.noting x s) id = s.belongings id := by
  rcases outside_split hx with _ | _
  · have hkept : belongings (s.forget.noting .crash s) id =
        s.belongings id := by
      simp only [belongings, get_empty, h.absent hi, forget]
    exact ⟨⟨fun _ ha => absurd rfl ha, (dirExists_congr hkept).trans h.dir⟩, hkept⟩
  · exact ⟨⟨h.unknown, h.dir⟩, rfl⟩

end System.Strange

def Op.draws : Op → Bool
  | .allocate .. | .undoAllocate _ => true
  | _ => false

/-- Where a Create draws the id of its VM, the service has the VM of every directory. -/
def DirsKnown (s : System) : Event → Prop
  | .op _ o => o.draws = true → ∀ id, s.dirExists id = true → s.vms.get id ≠ none
  | _ => True

def FreshDirs (s : System) : Event → Prop
  | .op _ o => o.FreshDir s
  | _ => True

theorem DirsKnown.freshDir (hk : DirsKnown s (.op t op)) (hg : op.Guard cfg s t) : op.FreshDir s := by
  have hfresh : ∀ id, s.vms.get id = none → op.draws = true → s.dirExists id = false := by
    intro id hnone hdraws
    rw [eq_false_iff]
    exact fun hdir => hk hdraws id hdir hnone
  cases op with
  | allocate id => exact hfresh id hg.2.2.1 rfl
  | undoAllocate id => exact hfresh id hg.2.1 rfl
  | _ => trivial

theorem System.Strange.step (h : s.Strange id) (hi : Inv s)
    (hs : StepOf cfg s ev s') (hk : DirsKnown s ev) (hload : ∀ t r, ev ≠ .op t (.loadEntry id r)) :
    s'.Strange id ∧ s'.belongings id = s.belongings id := by
  cases hs with
  | @op t o hg =>
    have hne : ∀ r, o ≠ .loadEntry id r := fun r heq => hload t r (heq ▸ rfl)
    have hf := hk.freshDir hg
    exact ⟨h.effect hi hg hf hne, h.belongings_kept hi hg hf hne⟩
  | call => exact ⟨h, rfl⟩
  | env hx => exact h.outside hi hx

/-- In every run on any state directory in which ids are drawn only while the service has the VM of every
directory: an id that is drawn names no directory; a directory whose record Load cannot read is never touched, and no
VM gets its id; and whatever directory the service has no VM for, no step changes it or what else is there of that VM,
until Load reads its record. -/
theorem new_ids_fresh (cfg : Config) (d : StateDir) {pool : Pool}
    (h : (service cfg).Run DirsKnown d.system pool) : (∀ id, d.system.dirExists id = true → d.system.Unreadable id →
      pool.shared.Strange id ∧ pool.shared.belongings id = d.system.belongings id) ∧
    ∀ m ev pool', (service cfg).step pool m = some (ev, pool') → DirsKnown pool.shared ev →
      FreshDirs pool.shared ev ∧
      ∀ id, pool.shared.Strange id → (∀ t r, ev ≠ .op t (.loadEntry id r)) →
        pool'.shared.Strange id ∧ pool'.shared.belongings id = pool.shared.belongings id := by
  have hO := outline_sound_from cfg d.inv fun _ _ _ hmem => absurd hmem not_mem_nil
  refine ⟨fun id hdir hun => ?_, fun m ev pool' hm hk => ⟨?_, fun id hs hload =>
    hs.step (hO.holds h).inv (stepOf hO h hm) hk hload⟩⟩
  · have hstart : d.system.Strange id := ⟨fun e ha => absurd rfl ha, hdir⟩
    refine invariant_from (I := fun s => s.Strange id ∧ s.belongings id = d.system.belongings id) hO
      ⟨hstart, rfl⟩ (fun s t o hi hI hg hk => ?_) (fun s x n s' hi hI _ hx => ?_) h
    · obtain ⟨hs, hsame⟩ := hI
      have hne : ∀ r, o ≠ .loadEntry id r := by
        intro r heq
        subst heq
        obtain ⟨-, -, hdisk, hkey, -⟩ := hg
        have hrecord : s.disk.get id = d.disk.get id := congrArg Belongings.record hsame
        exact hun r (hrecord.symm.trans hdisk) hkey
      have hf := hk.freshDir hg
      exact ⟨hs.effect hi hg hf hne, (hs.belongings_kept hi hg hf hne).trans hsame⟩
    · obtain ⟨hs, hsame⟩ := hI
      obtain ⟨hs', hkept⟩ := hs.outside hi hx
      exact ⟨hs', hkept.trans hsame⟩
  · have hs := stepOf hO h hm
    generalize pool'.shared = s' at hs
    cases hs with
    | op hg => exact hk.freshDir hg
    | _ => trivial

def System.dirs (s : System) : List String :=
  s.disk.keys ++ s.host.files.keys ++ s.host.userDataFiles.keys ++ s.host.reports.keys

theorem System.mem_dirs (h : s.dirExists id = true) : id ∈ s.dirs := by
  simp only [dirExists, or_eq_true, GoMap.get, AList.lookup_isSome, AList.mem_keys] at h
  simpa only [dirs, mem_append] using h

instance (ev : Event) : Decidable (DirsKnown s ev) :=
  match ev with
  | .op _ o => decidable_of_iff (o.draws = true → ∀ id ∈ s.dirs, s.dirExists id = true → s.vms.get id ≠ none)
    ⟨fun h hd id hdir => h hd id (mem_dirs hdir) hdir, fun h hd id _ hdir => h hd id hdir⟩
  | .call _ | .env _ => isTrue trivial

namespace Sample

def found : StateDir where
  host := { files := (∅ : GoMap String Unit).insert "01" () }
  numbered := ⟨Nat.one_ne_zero, fun _ _ h => absurd h get_empty_ne⟩

def kept : StateDir where
  disk := (∅ : GoMap String VM).insert "01" (({} : System).newVM "01" "machine" 3 { name := "one", network := "a" })
  nextSerial := 2
  numbered := by
    refine ⟨by decide, fun id r h => ?_⟩
    rw [get_insert] at h
    split at h
    · cases h
      decide
    · cases h

def reads : List Move :=
  [.env .start] ++ oks 0 6 ++ [.call (.createNetwork { name := "a", cidr := ⟨0x0a000000, 24⟩ })] ++ oks 1 7 ++
    [.call (.create { name := "two", network := "a" })] ++ oks 2 1

def takes : List Move := withNetwork ++ creates 2 { name := "one", network := "a" } "01" ++ oks 2 2

theorem found_unreadable : found.system.Unreadable "01" :=
  fun _ h => absurd h get_empty_ne

end Sample
open Sample

theorem new_ids_fresh_second : ∃ pool ev pool', (service config).Run DirsKnown kept.system pool ∧
      (service config).step pool (.go 2 (.ids "02" "machine")) = some (ev, pool') ∧
      (DirsKnown pool.shared ev ∧ pool.shared.dirExists "01" = true ∧ pool'.shared.vms.get "02" = some 1) ∧
      FreshDirs pool.shared ev :=
  Runs.witnessStep reads (.go 2 (.ids "02" "machine")) (by decide +kernel) fun _ _ _ hrun hm hp =>
    ((new_ids_fresh config kept hrun).2 _ _ _ hm hp.1).1

theorem new_id_takes_directory :
    found.system.dirExists "01" = true ∧ found.system.Unreadable "01" ∧
    (∃ pool, (service config).Run (fun _ _ => True) found.system pool ∧
      (pool.shared.disk.get "01").isSome = true ∧ pool.shared.vms.get "01" = some 0) ∧
    ∃ pool, (service config).Run (fun _ _ => True) found.system pool ∧
      pool.shared.dirExists "01" = false :=
  ⟨rfl, found_unreadable, Runs.sample takes (by decide +kernel),
    Runs.sample (takes ++ [.env (.exit 0 ⟨1, ""⟩), .go 3 (.exited {})] ++ oks 3 5 ++
      [.call (.delete "01")] ++ oks 4 18) (by decide +kernel)⟩

end VmManager.Vm
