import VmManager.Vm.ServiceSpec

/-! The records of the running service and those on disk. One operation writes at most one record, by
one of the critical sections of `Update`, and what is on disk was the record of some entry. A property
of records that the critical sections keep therefore holds of all of them in every run. -/
namespace VmManager.Vm
open Encoding Attest Interleaving GoMap Vm.System
variable {cfg : Config} {s s' : System} {t e n : Nat} {op : Op} {id : String} {x : Outside} {u : Update}

theorem Op.alive_of_writes (hg : op.Guard cfg s t) (hw : op.writes s e = some u) :
    s.Alive e := by
  rcases Op.writes_cases hw with rfl | ⟨phase, h, rfl, -⟩ | ⟨p, exit, timeout, c, rfl, -⟩
  · exact hg.1
  · exact hg.2.1
  · exact hg.1

def Op.dir : Op → Option String
  | .allocate id _ _ _ | .removeDir id | .undoAllocate id => some id
  | _ => none

def Op.about : Op → Option String
  | .allocate id _ _ _ | .removeDir id | .undoAllocate id | .remove id | .loadEntry id _ => some id
  | .host (.writeFile id) | .host (.writeUserData id _) | .host (.writeReport id _)
  | .host (.createVolume id) | .host (.deleteVolume id _) => some id
  | _ => none

namespace Inv

theorem loading_kept (hg : op.Guard cfg s t) (hl : s.loading = some e) :
    (s.effect t op).loading = some e ∨ (∃ err, op = .update e (.reattachFailed err)) ∨
      ∃ phase h, op = .reattach e phase h := by
  cases op with
  | update e' u =>
    cases u with
    | reattachFailed err =>
      obtain rfl : e = e' := Option.some.inj (hl.symm.trans hg.2.2)
      exact .inr (.inl ⟨err, rfl⟩)
    | _ => exact .inl hl
  | reattach e' phase h =>
    obtain rfl : e = e' := Option.some.inj (hl.symm.trans hg.2.1)
    exact .inr (.inr ⟨phase, h, rfl⟩)
  | loadEntry id r =>
    rw [hg.2.1] at hl
    cases hl
  | _ => exact .inl hl

theorem disk_frame (hwrites : ∀ e u, op.writes s e = some u → (s.record e).id ≠ id)
    (hdir : op.dir ≠ some id) : (s.effect t op).disk.get id = s.disk.get id := by
  have hupdate : ∀ e (x : System) (u : Update), (s.record e).id ≠ id → x.record e = s.record e →
      x.disk = s.disk → (x.updateRec e u).disk.get id = s.disk.get id := by
    intro e x u hne hx hd
    simp only [updateRec]
    split
    · rw [get_insert, VM.update_id, hx, if_neg hne.symm, hd]
    · rw [hd]
  have hne : ∀ {id'}, some id' ≠ some id → id ≠ id' := fun h heq => h (congrArg some heq.symm)
  cases op with
  | update e u => exact hupdate e s u (hwrites e u (if_pos rfl)) rfl rfl
  | track e phase h =>
    exact hupdate e _ _ (hwrites e _ (if_pos rfl)) (by simp [addProc, System.record]) rfl
  | exited e p exit timeout c =>
    exact hupdate e _ _ (hwrites e _ (if_pos rfl)) (by simp [dropProc, System.record]) rfl
  | allocate id' machineID cid spec => exact (get_insert ..).trans (if_neg (hne hdir))
  | removeDir id' | undoAllocate id' => exact (get_erase ..).trans (if_neg (hne hdir))
  | _ => rfl

theorem disk_saved (hw : op.writes s e = some u) (hs : u.saves = true) (hdisk : s.writable = true) :
    (s.effect t op).disk.get ((s.effect t op).record e).id = some ((s.effect t op).record e) := by
  have hupdate : ∀ (x : System) (u : Update), x.writable = true → u.saves = true →
      (x.updateRec e u).disk.get ((x.updateRec e u).record e).id = some ((x.updateRec e u).record e) := by
    intro x u hx hu
    simp only [updateRec, hx, hu, Bool.and_self, if_true, System.record, Function.update_self]
    exact (get_insert ..).trans (if_pos rfl)
  rcases Op.writes_cases hw with rfl | ⟨phase, hs', rfl, rfl⟩ | ⟨p, exit, timeout, c, rfl, rfl⟩
  · exact hupdate s u hdisk hs
  · exact hupdate _ _ hdisk hs
  · exact hupdate _ _ hdisk hs

theorem deleting_mono (hi : Inv s) (hg : op.Guard cfg s t) (ha : s.Alive e)
    (hp : ∀ phase h, op = .track e phase h → s.Present e) (hd : (s.record e).state = .deleting) :
    ((s.effect t op).record e).state = .deleting := by
  rw [hi.record_effect hg fun _ => (hi.alive_lt ha).ne]
  cases hw : op.writes s e with
  | none => exact hd
  | some u =>
    rcases Op.writes_cases hw with rfl | ⟨phase, hs, rfl, -⟩ | ⟨p, exit, timeout, c, -, rfl⟩
    · cases hu : u.deletes with
      | true => cases u with
        | deleting => rfl
        | _ => cases hu
      | false => exact (hg.2.deleting_iff (hi.entry e) hu s.clock).2 hd
    · obtain ⟨-, -, -, -, -, -, -, hgone, -⟩ := hg
      exact absurd (hp phase hs rfl) (hgone hd)
    · exact (VM.onExit_deleting_iff ..).2 hd

theorem deleting_of_effect (hi : Inv s) (hg : op.Guard cfg s t) (ha : s.Alive e)
    (hd : ((s.effect t op).record e).state = .deleting) :
    (s.record e).state = .deleting ∨ op = .update e .deleting := by
  rw [hi.record_effect hg fun _ => (hi.alive_lt ha).ne] at hd
  cases hw : op.writes s e with
  | none =>
    rw [hw] at hd
    exact .inl hd
  | some u =>
    rw [hw] at hd
    rcases Op.writes_cases hw with rfl | ⟨phase, hs, -, rfl⟩ | ⟨p, exit, timeout, c, -, rfl⟩
    · cases hu : u.deletes with
      | true => cases u with
        | deleting => exact .inr rfl
        | _ => cases hu
      | false => exact .inl ((hg.2.deleting_iff (hi.entry e) hu s.clock).1 hd)
    · cases phase <;> cases hd
    · exact .inl ((VM.onExit_deleting_iff ..).1 hd)

theorem record_added (op : Op) (hadd : op.adds = true) :
    (∃ id machineID cid spec, op = .allocate id machineID cid spec ∧
      (s.effect t op).record s.nextEntry = s.newVM id machineID cid spec) ∨
    ∃ id r, op = .loadEntry id r ∧ (s.effect t op).record s.nextEntry = r.loaded := by
  cases op with
  | allocate id machineID cid spec =>
    exact .inl ⟨id, machineID, cid, spec, rfl, by simp [System.effect, System.apply, System.addEntry, System.record]⟩
  | loadEntry id r =>
    exact .inr ⟨id, r, rfl, by simp [System.effect, System.apply, System.addEntry, System.record]⟩
  | _ => cases hadd

end Inv

def System.Records (s : System) (R : VM → Prop) : Prop :=
  (∀ e, s.Alive e → R (s.record e)) ∧ ∀ id r, s.disk.get id = some r → R r

namespace System.Records
variable {R : VM → Prop}

theorem effect (hi : Inv s) (hg : op.Guard cfg s t) (h : s.Records R)
    (hnew : ∀ id machineID cid spec, op = .allocate id machineID cid spec → R (s.newVM id machineID cid spec))
    (hload : ∀ r, R r → R r.loaded)
    (hupd : ∀ e u, op.writes s e = some u → s.Alive e → R (s.record e) → R ((s.record e).update s.clock u))
    : (s.effect t op).Records R := by
  have hmem : ∀ e, (s.effect t op).Alive e → R ((s.effect t op).record e) := by
    intro e ha
    rcases hi.alive_of_effect hg ha with hold | ⟨hadd, rfl⟩
    · rw [hi.record_effect hg fun _ => (hi.alive_lt hold).ne]
      cases hw : op.writes s e with
      | none => exact h.1 e hold
      | some u => exact hupd e u hw hold (h.1 e hold)
    · rcases Inv.record_added (s := s) (t := t) op hadd with ⟨id, m, cid, spec, rfl, hr⟩ | ⟨id, r, rfl, hr⟩
      · rw [hr]
        exact hnew id m cid spec rfl
      · rw [hr]
        exact hload r (h.2 id r hg.2.2.1)
  refine ⟨hmem, fun id r hr => ?_⟩
  rcases hi.disk_effect hg hr with hold | ⟨e, ha, rfl, -⟩
  · exact h.2 id r hold
  · exact hmem e ha

theorem outside {l : List Happening} (h : s.Records R)
    (hx : s.outside n x = some s') : Records { s' with hist := l } R := by
  rcases outside_split hx with _ | _
  · exact ⟨fun _ ha => absurd rfl ha, h.2⟩
  · exact h

theorem initial : Records {} R := ⟨fun _ ha => absurd rfl ha, fun _ _ hr => absurd hr get_empty_ne⟩

end System.Records

/-- VM number `n` has a record under `id`, in memory or on disk. -/
def System.Named (s : System) (n : Nat) (id : String) : Prop :=
  (∃ e, s.Alive e ∧ (s.record e).serial = n ∧ (s.record e).id = id) ∨ ∃ r, s.disk.get id = some r ∧ r.serial = n

structure Numbered (s : System) : Prop where
  entry : ∀ e e', s.Alive e → s.Alive e' → (s.record e).serial = (s.record e').serial → e = e'
  fresh : ∀ n id, s.Named n id → n < s.nextSerial
  unique : ∀ n id id', s.Named n id → s.Named n id' → id = id'
  key : ∀ id r, s.disk.get id = some r → r.id = id

namespace Inv

theorem named_effect (hi : Inv s) (hg : op.Guard cfg s t) (h : (s.effect t op).Named n id) :
    s.Named n id ∨ (n = s.nextSerial ∧ ∃ machineID cid spec, op = .allocate id machineID cid spec) := by
  have hmem : ∀ e, (s.effect t op).Alive e → ((s.effect t op).record e).serial = n →
      ((s.effect t op).record e).id = id →
      s.Named n id ∨ (n = s.nextSerial ∧ ∃ machineID cid spec, op = .allocate id machineID cid spec) := by
    intro e ha hn hid
    rcases hi.alive_of_effect hg ha with hold | ⟨hadd, rfl⟩
    · obtain ⟨h1, h2, -⟩ := hi.ident hg hold
      exact .inl (.inl ⟨e, hold, h2 ▸ hn, h1 ▸ hid⟩)
    · rcases record_added (s := s) (t := t) op hadd with ⟨id', m, cid, spec, rfl, hr⟩ | ⟨id', r, rfl, hr⟩
      · rw [hr] at hn hid
        cases hid
        exact .inr ⟨hn.symm, m, cid, spec, rfl⟩
      · rw [hr, VM.loaded_serial] at hn
        rw [hr, VM.loaded_id] at hid
        obtain ⟨-, -, hdisk, hkey, -⟩ := hg
        exact .inl (.inr ⟨r, by rw [← hid, hkey]; exact hdisk, hn⟩)
  rcases h with ⟨e, ha, hn, hid⟩ | ⟨r, hr, hn⟩
  · exact hmem e ha hn hid
  · rcases hi.disk_effect hg hr with hold | ⟨e, ha, rfl, hid⟩
    · exact .inl (.inr ⟨r, hold, hn⟩)
    · exact hmem e ha hn hid

end Inv

theorem System.named_mem (ha : s.Alive e) : s.Named (s.record e).serial (s.record e).id := .inl ⟨e, ha, rfl, rfl⟩

theorem System.named_disk {r : VM} (h : s.disk.get id = some r) : s.Named r.serial id := .inr ⟨r, h, rfl⟩

namespace Numbered

theorem added_ne (h : Numbered s) (hi : Inv s) (hg : op.Guard cfg s t) (hadd : op.adds = true)
    (ha : s.Alive e) : ((s.effect t op).record s.nextEntry).serial ≠ (s.record e).serial := by
  intro heq
  rcases Inv.record_added (s := s) (t := t) op hadd with ⟨id, m, cid, spec, rfl, hr⟩ | ⟨id, r, rfl, hr⟩
  · rw [hr] at heq
    exact absurd heq (h.fresh _ _ (named_mem ha)).ne'
  · rw [hr, VM.loaded_serial] at heq
    obtain ⟨-, -, hdisk, -, ⟨rest, hp⟩, -⟩ := hg
    have hid := h.unique _ _ _ (named_disk hdisk) (heq ▸ named_mem ha)
    exact (hi.pending _ hp).2 e ha (hid ▸ List.mem_cons_self ..)

theorem effect (h : Numbered s) (hi : Inv s) (hg : op.Guard cfg s t) :
    Numbered (s.effect t op) where
  entry e e' ha ha' heq := by
    rcases hi.alive_of_effect hg ha with h1 | ⟨hadd, rfl⟩
    · rcases hi.alive_of_effect hg ha' with h2 | ⟨hadd, rfl⟩
      · rw [(hi.ident hg h1).2.1, (hi.ident hg h2).2.1] at heq
        exact h.entry e e' h1 h2 heq
      · rw [(hi.ident hg h1).2.1] at heq
        exact absurd heq.symm (h.added_ne hi hg hadd h1)
    · rcases hi.alive_of_effect hg ha' with h2 | ⟨-, rfl⟩
      · rw [(hi.ident hg h2).2.1] at heq
        exact absurd heq (h.added_ne hi hg hadd h2)
      · rfl
  fresh n id hn := by
    rcases hi.named_effect hg hn with hold | ⟨rfl, machineID, cid, spec, rfl⟩
    · exact (h.fresh n id hold).trans_le (Inv.nextSerial_effect s t op)
    · exact Nat.lt_succ_self _
  unique n id id' h1 h2 := by
    rcases hi.named_effect hg h1 with h1 | ⟨hn, _, _, _, rfl⟩
    · rcases hi.named_effect hg h2 with h2 | ⟨hn, _⟩
      · exact h.unique n id id' h1 h2
      · exact absurd (h.fresh n id h1) (by omega)
    · rcases hi.named_effect hg h2 with h2 | ⟨_, _, _, _, heq⟩
      · exact absurd (h.fresh n id' h2) (by omega)
      · cases heq
        rfl
  key id r hr := by
    rcases hi.disk_effect hg hr with hold | ⟨e, _, rfl, hid⟩
    · exact h.key id r hold
    · exact hid

theorem outside (h : Numbered s) (hx : s.outside n x = some s') :
    Numbered (s'.noting x s) := by
  rcases outside_split hx with _ | _
  · have hn : ∀ n id, Named (s.forget.noting .crash s) n id →
        s.Named n id := by
      rintro n id (⟨e, ha, -⟩ | hd)
      · exact absurd rfl ha
      · exact .inr hd
    exact ⟨fun _ _ ha => absurd rfl ha, fun n id hx => h.fresh n id (hn n id hx),
      fun n id id' h1 h2 => h.unique n id id' (hn n id h1) (hn n id' h2), h.key⟩
  · exact { h with }

theorem initial : Numbered {} where
  entry _ _ ha := absurd rfl ha
  fresh := by
    rintro n id (⟨e, ha, -⟩ | ⟨r, hr, -⟩)
    · exact absurd rfl ha
    · exact absurd hr get_empty_ne
  unique := by
    rintro n id id' (⟨e, ha, -⟩ | ⟨r, hr, -⟩)
    · exact absurd rfl ha
    · exact absurd hr get_empty_ne
  key _ _ hr := absurd hr get_empty_ne

end Numbered

def System.Distinct (s : System) : Prop := ∀ e e', s.Alive e → s.Alive e' → (s.record e).id = (s.record e').id → e = e'

instance (s : System) (e : Nat) : Decidable (s.Alive e) := inferInstanceAs (Decidable ((s.record e).serial ≠ 0))

/-- Create draws an id that no entry of the running service has had. -/
def Op.FreshId (s : System) : Op → Prop
  | .allocate id _ _ _ => ∀ e < s.nextEntry, s.Alive e → (s.record e).id ≠ id
  | _ => True

instance (s : System) (op : Op) : Decidable (op.FreshId s) := by
  cases op <;> delta Op.FreshId <;> infer_instance

def Op.FreshDir (s : System) : Op → Prop
  | .allocate id _ _ _ | .undoAllocate id => s.dirExists id = false
  | _ => True

instance (s : System) (op : Op) : Decidable (op.FreshDir s) := by
  cases op <;> delta Op.FreshDir <;> infer_instance

namespace System.Distinct

theorem added_ne (hi : Inv s) (hg : op.Guard cfg s t) (hf : op.FreshId s) (hadd : op.adds = true)
    (ha : s.Alive e) : ((s.effect t op).record s.nextEntry).id ≠ (s.record e).id := by
  rcases Inv.record_added (s := s) (t := t) op hadd with ⟨id, m, cid, spec, rfl, hr⟩ | ⟨id, r, rfl, hr⟩
  · rw [hr]
    exact (hf e (hi.alive_lt ha) ha).symm
  · obtain ⟨-, -, -, hkey, ⟨rest, hp⟩, -⟩ := hg
    rw [hr, VM.loaded_id, hkey]
    intro heq
    exact (hi.pending _ hp).2 e ha (heq ▸ List.mem_cons_self ..)

theorem effect (h : s.Distinct) (hi : Inv s) (hg : op.Guard cfg s t) (hf : op.FreshId s) :
    (s.effect t op).Distinct := by
  intro e e' ha ha' heq
  rcases hi.alive_of_effect hg ha with h1 | ⟨hadd, rfl⟩
  · rw [(hi.ident hg h1).1] at heq
    rcases hi.alive_of_effect hg ha' with h2 | ⟨hadd, rfl⟩
    · rw [(hi.ident hg h2).1] at heq
      exact h e e' h1 h2 heq
    · exact absurd heq.symm (added_ne hi hg hf hadd h1)
  · rcases hi.alive_of_effect hg ha' with h2 | ⟨-, rfl⟩
    · rw [(hi.ident hg h2).1] at heq
      exact absurd heq (added_ne hi hg hf hadd h2)
    · rfl

theorem outside (h : s.Distinct) (hx : s.outside n x = some s') :
    Distinct (s'.noting x s) := by
  rcases outside_split hx with _ | _
  · exact fun _ _ ha => absurd rfl ha
  · exact h

theorem initial : Distinct {} := fun _ _ ha => absurd rfl ha

end System.Distinct

def System.Gone (s : System) (id : String) : Prop := ∃ e, s.Names e id ∧ ¬ s.Present e

theorem System.Gone.later (hi : Inv s) (hl : Later s s') (h : s.Gone id) :
    s'.Gone id := by
  obtain ⟨e, hn, hp⟩ := h
  exact ⟨e, Lasting.later (P := fun s => s.Names e id) s s' hi hl hn, fun hx => hp (hl.present e hn.1 hx)⟩

theorem OutsideStep.gone (ho : OutsideStep s s') (h : s.Gone id) : s'.Gone id := by
  obtain ⟨e, hn, hp⟩ := h
  have hrec : s'.record e = s.record e := (ho.same e).record
  refine ⟨e, ⟨by rw [Alive, hrec]; exact hn.1, by rw [hrec]; exact hn.2⟩, fun hx => hp ?_⟩
  rwa [Present, ho.vms, hrec] at hx

theorem System.Gone.not_present (hd : s.Distinct) (ha : s.Alive e) (h : s.Gone (s.record e).id) :
    ¬ s.Present e := by
  obtain ⟨e', hn, hp⟩ := h
  rwa [hd e e' ha hn.1 hn.2.symm]

theorem Runs.numbered {K : System → Event → Prop}
    {pool : Pool} (h : Runs cfg K pool) : Numbered pool.shared :=
  Runs.invariant (I := Numbered) Numbered.initial (fun _ _ _ hi hn hg _ => hn.effect hi hg)
    (fun _ _ _ _ _ hn _ hx => hn.outside hx) h

end VmManager.Vm
