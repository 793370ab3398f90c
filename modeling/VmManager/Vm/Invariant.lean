import VmManager.Network.Consistency
import VmManager.Vm.Guard

/-! The invariant of the service's memory. Most operations leave an entry alone, which `SameEntry`
says once; for the others the guard of the operation gives what the invariant needs. -/
namespace VmManager.Vm
open Encoding Attest Interleaving Option Function Vm.System
variable {phase : Phase} {exit : ExitStatus} {timeout id : String} {hs : Processes} {c : Console} {x : Entry} {p : Nat}

/-- The step leaves the process alone, but for who supervises it and whether it timed out. -/
def SameProc (s s' : System) (p : Nat) : Prop :=
  s.nextProc ≤ s'.nextProc ∧ (s'.procs p).entry = (s.procs p).entry ∧
    (s'.procs p).phase = (s.procs p).phase ∧ (s'.procs p).handles = (s.procs p).handles ∧
    (s'.procs p).done = (s.procs p).done

/-- The step leaves the entry, its processes and its place in the service alone. -/
structure SameEntry (s s' : System) (e : Nat) : Prop where
  record : s'.record e = s.record e
  proc : (s'.entries e).proc = (s.entries e).proc
  opMu : (s'.entries e).opMu = (s.entries e).opMu
  late : (s'.entries e).late = (s.entries e).late
  owner : (s'.entries e).owner = (s.entries e).owner
  unsettled : ∀ q, s'.Unsettled e q → s.Unsettled e q
  procs : ∀ p, (s.entries e).proc = some p → SameProc s s' p
  present : s'.Present e ↔ s.Present e
  closing : s.closing = true → s'.closing = true
  overtaken : s'.overtaken = false → s.overtaken = false
  loading : s'.loading = some e → s.loading = some e

def Op.Concerns (s : System) (e : Nat) : Op → Prop
  | .lock e' | .unlock e' | .update e' _ | .runtimeStart e' _ _ _ | .track e' _ _ | .reattach e' _ _
  | .exited e' _ _ _ _ => e = e'
  | .remove id => (s.record e).id = id
  | .allocate .. | .loadEntry .. => e = s.nextEntry
  | _ => False

structure EntryInv (s : System) (e : Nat) : Prop where
  covered : (s.entries e).opMu = none → s.Covered e
  proc : ∀ p, (s.entries e).proc = some p → p < s.nextProc ∧ (s.procs p).entry = e ∧ (s.procs p).done = false
  owner : ∀ t, (s.entries e).owner = some t → (s.entries e).proc = none ∧ (s.record e).installedAt = none ∧
    ((s.record e).state = .creating ∨ ((s.record e).state = .deleting ∧ s.overtaken = true))
  late : (s.entries e).late = true → s.closing = true
  deleting : (s.record e).state = .deleting → (s.entries e).opMu = none → ¬ s.Present e
  gone : s.overtaken = false → s.Alive e → ¬ s.Present e → (s.entries e).proc = none ∧
    (∀ q, ¬ s.Unsettled e q) ∧ ((s.record e).state = .deleting ∨ (s.entries e).owner ≠ none)
  loading : s.loading = some e → s.Alive e ∧ (s.entries e).proc = none ∧
    (s.entries e).opMu = none ∧ (s.entries e).owner = none ∧ (s.record e).state.live = true

/-- What holds of the memory of the service between any two operations. -/
structure Inv (s : System) : Prop where
  entry : ∀ e, EntryInv s e
  vms : ∀ id e, s.vms.get id = some e → s.Alive e ∧ (s.record e).id = id
  freshEntry : ∀ e, s.nextEntry ≤ e → s.entries e = noEntry
  freshQemu : ∀ q, s.nextQemu ≤ q → s.qemus q = noQemu
  qemuEntry : ∀ q, (s.qemus q).settled = false → (s.qemus q).entry < s.nextEntry
  pending : ∀ ids, s.pendingLoad = some ids → ids.Nodup ∧ ∀ e, s.Alive e → (s.record e).id ∉ ids
  unlisted : s.loader ≠ none → s.pendingLoad = none → ∀ e, ¬ s.Alive e
  loader : s.loader = none → s.pendingLoad = none ∧ s.loading = none
  serving : s.serving = true → s.loader = none
  closing : s.closing = true → s.serving = true
  down : s.up = false → s.serving = false ∧ s.loader = none ∧ ∀ e, ¬ s.Alive e
  serial : s.nextSerial ≠ 0
  disk : ∀ id r, s.disk.get id = some r → r.serial ≠ 0
  nets : s.nets.Consistent

variable {cfg : Config} {s s' : System} {t e : Nat} {op : Op} {u : Update}

namespace SameEntry

theorem overtaken_mono (h : SameEntry s s' e) (ho : s.overtaken = true) : s'.overtaken = true := by
  by_contra hn
  have hf := h.overtaken (Bool.eq_false_iff.2 hn)
  rw [ho] at hf
  cases hf

theorem of_entry (he : s'.entries e = s.entries e)
    (hq : ∀ q, (s'.qemus q).entry = e → (s'.qemus q).settled = false →
      (s.qemus q).entry = e ∧ (s.qemus q).settled = false)
    (hp : ∀ p, (s.entries e).proc = some p → SameProc s s' p) (hv : s'.vms = s.vms)
    (hc : s.closing = true → s'.closing = true) (ho : s'.overtaken = false → s.overtaken = false)
    (hl : s'.loading = some e → s.loading = some e) : SameEntry s s' e where
  record := congrArg Entry.record he
  proc := by rw [he]
  opMu := by rw [he]
  late := by rw [he]
  owner := by rw [he]
  unsettled q hu := by
    obtain ⟨ha, hu⟩ := hu
    rw [Alive, System.record, he] at ha
    exact ⟨ha, hq q hu.1 hu.2⟩
  procs := hp
  present := by simp only [Present, System.record, he, hv]
  closing := hc
  overtaken := ho
  loading := hl

end SameEntry

namespace Inv

theorem alive_lt (h : Inv s) (ha : s.Alive e) : e < s.nextEntry := by
  by_contra hlt
  exact ha (by rw [System.record, h.freshEntry e (by omega)]; rfl)

theorem not_alive_next (h : Inv s) : ¬ s.Alive s.nextEntry :=
  fun ha => absurd (h.alive_lt ha) (lt_irrefl _)

theorem pending_absent (h : Inv s) {ids : List String}
    (hp : s.pendingLoad = some ids) (hid : id ∈ ids) : s.vms.get id = none := by
  by_contra hv
  obtain ⟨e, he⟩ := ne_none_iff_exists'.1 hv
  obtain ⟨ha, rfl⟩ := h.vms id e he
  exact (h.pending ids hp).2 e ha hid

theorem same_addEntry (hid : s.vms.get id = none) (he : e ≠ s.nextEntry)
    (h1 : s'.entries = update s.entries s.nextEntry x) (h2 : s'.vms = s.vms.insert id s.nextEntry)
    (hq : s'.qemus = s.qemus) (hp : s'.procs = s.procs) (hn : s'.nextProc = s.nextProc) (hc : s'.closing = s.closing)
    (ho : s'.overtaken = s.overtaken) (hl : s'.loading = some e → s.loading = some e) :
    SameEntry s s' e := by
  have hx : s'.entries e = s.entries e := by rw [h1, update_of_ne he]
  have hold : SameEntry s { s' with vms := s.vms } e := by
    refine .of_entry hx (fun q h1 h2 => ?_) (fun p _ => ?_) rfl
      (fun h => hc.trans h) (fun h => ho.symm.trans h) hl
    · exact ⟨hq ▸ h1, hq ▸ h2⟩
    · exact ⟨hn.ge, by rw [hp], by rw [hp], by rw [hp], by rw [hp]⟩
  refine { hold with present := ?_ }
  simp only [Present, System.record, hx, h2, GoMap.get_insert]
  split
  · rename_i hi
    simp [hi, hid, Ne.symm he]
  · rfl

theorem same (h : Inv s) (hg : op.Guard cfg s t) (hc : ¬ op.Concerns s e) :
    SameEntry s (s.effect t op) e := by
  have hp : ∀ p, (s.entries e).proc = some p → SameProc s s p :=
    fun p _ => ⟨le_rfl, rfl, rfl, rfl, rfl⟩
  have hnew : ∀ {x : Process} p, (s.entries e).proc = some p → ∀ {s' : System},
      s'.procs = update s.procs s.nextProc x → s'.nextProc = s.nextProc + 1 →
      SameProc s s' p := by
    intro x p hpr s' h1 h2
    have hne : p ≠ s.nextProc := ((h.entry e).proc p hpr).1.ne
    rw [SameProc, h1, h2, update_of_ne hne]
    simp
  cases op
  case lock e' =>
    exact .of_entry (update_of_ne hc _ _) (fun _ h1 h2 => ⟨h1, h2⟩) hp rfl id
      (fun ho => (Bool.or_eq_false_iff.1 ho).1) id
  case unlock e' =>
    exact .of_entry (update_of_ne hc _ _) (fun _ h1 h2 => ⟨h1, h2⟩) hp rfl id id id
  case update e' u =>
    refine .of_entry (update_of_ne hc _ _) (fun _ h1 h2 => ⟨h1, h2⟩) hp rfl id
      (fun ho => (Bool.or_eq_false_iff.1 ho).1) (fun hl => ?_)
    simp only [System.effect, System.apply] at hl
    split at hl
    · cases hl
    · exact hl
  case allocate id _ _ _ => exact same_addEntry hg.2.2.1 hc rfl rfl rfl rfl rfl rfl rfl fun h => h
  case loadEntry id r =>
    obtain ⟨-, -, -, -, ⟨rest, hp⟩, -⟩ := hg
    refine same_addEntry (h.pending_absent hp (List.mem_cons_self ..)) hc rfl rfl rfl rfl rfl rfl rfl
      (fun hl => ?_)
    simp only [System.effect, System.apply] at hl
    split at hl
    · exact absurd (some.inj hl).symm hc
    · cases hl
  case remove id =>
    have hold : SameEntry s { s.effect t (.remove id) with vms := s.vms } e :=
      .of_entry rfl (fun _ h1 h2 => ⟨h1, h2⟩) hp rfl (fun h => h) (fun h => h) fun h => h
    refine { hold with present := ?_ }
    have hne : (s.record e).id ≠ id := hc
    change GoMap.get (s.vms.erase id) (s.record e).id = some e ↔ s.vms.get (s.record e).id = some e
    rw [GoMap.get_erase, if_neg hne]
  case setVolume e' _ | release e' _ =>
    by_cases he : e = e'
    · subst he
      constructor <;> simp [System.effect, System.apply, modifyEntry, System.record,
        Unsettled, Alive, Present, System.closing, SameProc]
    · exact .of_entry (update_of_ne he _ _) (fun _ h1 h2 => ⟨h1, h2⟩) hp rfl id id id
  case runtimeStart e' phase cid q =>
    cases q with
    | none => exact .of_entry rfl (fun _ h1 h2 => ⟨h1, h2⟩) hp rfl id id id
    | some q =>
      refine .of_entry rfl (fun q' h1 h2 => ?_) hp rfl id id id
      simp only [System.effect, System.apply, Option.elim_some, update_apply] at h1 h2
      split at h1
      · exact absurd h1.symm hc
      · rw [if_neg ‹_›] at h2
        exact ⟨h1, h2⟩
  case track e' phase hs =>
    refine .of_entry ?_ (fun _ h1 h2 => ⟨h1, h2⟩) (fun p hpr => hnew p hpr rfl rfl) rfl id id id
    simp [System.effect, System.apply, updateRec, addProc, update_of_ne hc]
  case reattach e' phase hs =>
    exact .of_entry (update_of_ne hc _ _) (fun _ h1 h2 => ⟨h1, h2⟩)
      (fun p hpr => hnew p hpr rfl rfl) rfl id id fun h => by cases h
  case supervise p k =>
    refine .of_entry rfl (fun _ h1 h2 => ⟨h1, h2⟩) (fun p' _ => ?_) rfl id id id
    by_cases hpp : p' = p
    · subst hpp
      simp [SameProc, System.effect, System.apply, modifyProc]
    · simp [SameProc, System.effect, System.apply, modifyProc, update_of_ne hpp]
  case timedOut p =>
    refine .of_entry rfl (fun _ h1 h2 => ⟨h1, h2⟩) (fun p' _ => ?_) rfl id id id
    by_cases hpp : p' = p
    · subst hpp
      simp [SameProc, System.effect, System.apply, modifyProc]
    · simp [SameProc, System.effect, System.apply, modifyProc, update_of_ne hpp]
  case exited e' p exit timeout c =>
    refine .of_entry ?_ (fun q h1 h2 => ?_) hp rfl id id id
    · simp [System.effect, System.apply, updateRec, dropProc, update_of_ne hc]
    · by_cases hq : q = (s.procs p).handles.qemu
      · simp [System.effect, System.apply, updateRec, dropProc, hq] at h2
      · simp only [System.effect, System.apply, updateRec, dropProc, update_of_ne hq] at h1 h2
        exact ⟨h1, h2⟩
  case closeDone p =>
    refine .of_entry rfl (fun _ h1 h2 => ⟨h1, h2⟩) (fun p' hpr => ?_) rfl id id id
    have hpp : p' ≠ p := fun hpp => hg.2 e (hpp ▸ hpr)
    simp [SameProc, System.effect, System.apply, modifyProc, update_of_ne hpp]
  case shutdown o =>
    refine .of_entry rfl (fun _ h1 h2 => ⟨h1, h2⟩) hp rfl (fun hb => ?_) id id
    cases o <;> first | rfl | exact hb
  all_goals exact .of_entry rfl (fun _ h1 h2 => ⟨h1, h2⟩) hp rfl id id id

end Inv

namespace EntryInv

theorem of_same (h : EntryInv s e) (hs : SameEntry s s' e) : EntryInv s' e := by
  have ha : s'.Alive e ↔ s.Alive e := by rw [Alive, Alive, hs.record]
  refine ⟨fun hm q hu => ?_, fun p hpr => ?_, ?_, ?_, ?_, ?_, ?_⟩
  · obtain ⟨p, hpr, hq⟩ := h.covered (hs.opMu ▸ hm) q (hs.unsettled q hu)
    exact ⟨p, hs.proc ▸ hpr, by rw [(hs.procs p hpr).2.2.2.1]; exact hq⟩
  · rw [hs.proc] at hpr
    obtain ⟨hn, hent, -, -, hdone⟩ := hs.procs p hpr
    obtain ⟨hlt, hent', hdone'⟩ := h.proc p hpr
    exact ⟨by omega, hent.trans hent', hdone.trans hdone'⟩
  · rw [hs.owner, hs.proc, hs.record]
    intro t ho
    obtain ⟨hp, hi, hst⟩ := h.owner t ho
    exact ⟨hp, hi, hst.imp_right (And.imp_right hs.overtaken_mono)⟩
  · rw [hs.late]; exact fun hl => hs.closing (h.late hl)
  · rw [hs.record, hs.opMu, hs.present]; exact h.deleting
  · rw [hs.record, hs.proc, hs.owner, hs.present, ha]
    intro ho hal hpres
    obtain ⟨hpr, hu, hd⟩ := h.gone (hs.overtaken ho) hal hpres
    exact ⟨hpr, fun q hq => hu q (hs.unsettled q hq), hd⟩
  · rw [ha, hs.proc, hs.opMu, hs.owner, hs.record]; exact fun hl => h.loading (hs.loading hl)

end EntryInv

theorem Update.Guard.deleting_iff (h : EntryInv s e) (hg : u.Guard s t e) (hu : u.deletes = false) (now : Nat) :
    ((s.record e).update now u).state = .deleting ↔ (s.record e).state = .deleting := by
  cases u with
  | deleting => cases hu
  | installing | booting | exited => exact hg.elim
  | failed => simpa [VM.update] using hg.2.2.2
  | handoffClosed => simp [VM.update, hg.2.1]
  | stopping => simpa [VM.update] using hg.2
  | overdue => obtain ⟨-, hs | hs⟩ := hg <;> simp [VM.update, hs]
  | notified n c =>
    obtain hs | ⟨hs, hr⟩ := (s.record e).onNotify_state now n c
    · rw [VM.update, hs]
    · rw [VM.update, hr]
      rcases hs with hs | hs | hs <;> simp [hs]
  | nonceIssued =>
    obtain hs | ⟨hs, hr⟩ := (s.record e).onNonce_state now
    · rw [VM.update, hs]
    · simp [VM.update, hr, hs]
  | reattachFailed =>
    have hl := (h.loading hg.2).2.2.2.2
    constructor
    · intro hx
      simp [VM.update] at hx
    · intro hx
      rw [hx] at hl
      cases hl
  | _ => rfl

theorem Update.Guard.owner (h : EntryInv s e) (hg : u.Guard s t e) (now : Nat) {t' : Nat}
    (ho : (s.entries e).owner = some t') : ((s.record e).update now u).installedAt = none ∧
      (((s.record e).update now u).state = .creating ∨
        (((s.record e).update now u).state = .deleting ∧ (s.overtaken || u.deletes) = true)) := by
  obtain ⟨hp, hi, hs⟩ := h.owner t' ho
  cases u with
  | deleting => exact ⟨hi, .inr ⟨rfl, by simp [Update.deletes]⟩⟩
  | installing | booting | exited => exact hg.elim
  | failed =>
    have hnone := hg.2.1
    rw [ho] at hnone
    cases hnone
  | handoffClosed => simp [hg.2.1] at hs
  | stopping => exact absurd hp hg.1
  | overdue =>
    obtain ⟨⟨p, hsup, -⟩, -⟩ := hg
    rw [hsup.1] at hp
    cases hp
  | notified n c =>
    obtain ⟨p, hsup, -⟩ := hg
    rw [hsup.1] at hp
    cases hp
  | nonceIssued =>
    refine ⟨by rw [VM.update, (VM.onNonce_same _ _).installedAt, hi], ?_⟩
    obtain hs' | ⟨hs', -⟩ := (s.record e).onNonce_state now
    · rw [VM.update, hs']; simpa [Update.deletes] using hs
    · simp [hs'] at hs
  | reattachFailed =>
    have hl := (h.loading hg.2).2.2.2.1
    rw [ho] at hl
    cases hl
  | _ => exact ⟨hi, hs.imp_right (And.imp_right fun hov => Bool.or_eq_true_iff.2 (.inl hov))⟩

theorem Update.Guard.loading (h : EntryInv s e) (hg : u.Guard s t e) (hu : u.endsLoading = false)
    (now : Nat) (hl : s.loading = some e) :
    ((s.record e).update now u).state.live = true := by
  obtain ⟨-, hp, hm, -, hs⟩ := h.loading hl
  cases u with
  | installing | booting | exited => exact hg.elim
  | failed | handoffClosed => rw [hg.1.1] at hm; cases hm
  | stopping => exact absurd hp hg.1
  | deleting => rw [hg.1] at hm; cases hm
  | overdue => rfl
  | notified n c =>
    obtain hs' | ⟨-, hs'⟩ := (s.record e).onNotify_state now n c
    · rw [VM.update, hs', hs]
    · rw [VM.update, hs']; rfl
  | nonceIssued =>
    obtain hs' | ⟨-, hs'⟩ := (s.record e).onNonce_state now
    · rw [VM.update, hs', hs]
    · rw [VM.update, hs']; rfl
  | reattachFailed => cases hu
  | _ => exact hs
namespace System
variable (s : System) (t e : Nat)

theorem update_entry (u : Update) : (s.effect t (.update e u)).entries e =
    { s.entries e with record := (s.record e).update s.clock u
                       volume := (s.entries e).volume || u.opensVolume } :=
  update_self ..

theorem update_record (u : Update) : (s.effect t (.update e u)).record e = (s.record e).update s.clock u :=
  congrArg Entry.record (s.update_entry t e u)

theorem track_entry (phase : Phase) (h : Processes) : (s.effect t (.track e phase h)).entries e =
    { s.entries e with
      proc := some s.nextProc, owner := none
      record := (s.record e).update s.clock (.started phase h)
      volume := (s.entries e).volume || (Update.started phase h).opensVolume } := by
  simp [effect, apply, updateRec, addProc, record]

theorem track_record (phase : Phase) (h : Processes) :
    (s.effect t (.track e phase h)).record e = (s.record e).update s.clock (.started phase h) :=
  congrArg Entry.record (s.track_entry t e phase h)

theorem exited_entry (p : Nat) (exit : ExitStatus) (timeout : String) (c : Console) :
    (s.effect t (.exited e p exit timeout c)).entries e =
      { s.entries e with
        proc := none
        record := (s.record e).update s.clock
          (.exited (s.procs p).phase (s.procs p).timedOut exit timeout c)
        volume := (s.entries e).volume || false } := by
  simp [effect, apply, updateRec, dropProc, record, Update.opensVolume]

theorem exited_record (p : Nat) (exit : ExitStatus) (timeout : String) (c : Console) :
    (s.effect t (.exited e p exit timeout c)).record e = (s.record e).update s.clock
      (.exited (s.procs p).phase (s.procs p).timedOut exit timeout c) :=
  congrArg Entry.record (s.exited_entry t e p exit timeout c)

theorem unsettled_of_exited {q : Nat} (hu : (s.effect t (.exited e p exit timeout c)).Unsettled e q) :
    s.Unsettled e q ∧ q ≠ (s.procs p).handles.qemu := by
  obtain ⟨ha, hent, hset⟩ := hu
  rw [Alive, exited_record, VM.update_serial] at ha
  have hq : q ≠ (s.procs p).handles.qemu := by
    rintro rfl
    simp [effect, apply, updateRec, dropProc] at hset
  simp only [effect, apply, updateRec, dropProc, update_of_ne hq] at hent hset
  exact ⟨⟨ha, hent, hset⟩, hq⟩

end System

namespace EntryInv

theorem lock (h : EntryInv s e) (hl : s.loading ≠ some e) : EntryInv (s.effect t (.lock e)) e := by
  have he : (s.effect t (.lock e)).entries e = { s.entries e with opMu := some t, late := s.closing } := update_self ..
  refine ⟨?_, ?_, ?_, ?_, ?_, fun ho ha hpr => ?_, fun hl' => absurd hl' hl⟩
  · rw [he]; simp
  · rw [he]; exact h.proc
  · rw [System.record, he]
    intro t' ho
    obtain ⟨hp, hi, hst⟩ := h.owner t' ho
    exact ⟨hp, hi, hst.imp_right (And.imp_right fun hov => Bool.or_eq_true_iff.2 (.inl hov))⟩
  · rw [he]; exact fun hc => hc
  · rw [he]; exact fun _ => nofun
  · rw [Alive, System.record, he] at ha
    rw [Present, System.record, he] at hpr
    obtain ⟨h1, h2, h3⟩ := h.gone (Bool.or_eq_false_iff.1 ho).1 ha hpr
    rw [System.record, he]
    exact ⟨h1, fun q hu => h2 q ⟨ha, hu.2⟩, h3⟩

theorem unlock (h : EntryInv s e) (hc : s.Covered e)
    (hd : (s.record e).state = .deleting → ¬ s.Present e) : EntryInv (s.effect t (.unlock e)) e := by
  have he : (s.effect t (.unlock e)).entries e = { s.entries e with opMu := none } := update_self ..
  have hr : (s.effect t (.unlock e)).record e = s.record e := by rw [System.record, he]; rfl
  have hv : (s.effect t (.unlock e)).Present e ↔ s.Present e := by
    rw [Present, Present, hr]; rfl
  refine ⟨fun _ q hu => ?_, ?_, ?_, ?_, ?_, fun ho ha hpr => ?_, fun hl => ?_⟩
  · rw [Unsettled, Alive, hr] at hu
    obtain ⟨p, hp, hq⟩ := hc q hu
    exact ⟨p, by rw [he]; exact hp, hq⟩
  · rw [he]; exact h.proc
  · rw [hr, he]; exact h.owner
  · rw [he]; exact h.late
  · rw [hr, hv]; exact fun hst _ => hd hst
  · rw [Alive, hr] at ha
    obtain ⟨h1, h2, h3⟩ := h.gone ho ha fun hp => hpr (hv.2 hp)
    rw [hr, he]
    exact ⟨h1, fun q hu => h2 q ⟨ha, hu.2⟩, h3⟩
  · rw [Alive, hr, he]
    obtain ⟨h1, h2, -, h4⟩ := h.loading hl
    exact ⟨h1, h2, rfl, h4⟩

theorem update (h : EntryInv s e) (hg : u.Guard s t e) : EntryInv (s.effect t (.update e u)) e := by
  have he := s.update_entry t e u
  have hr := s.update_record t e u
  have ha : (s.effect t (.update e u)).Alive e ↔ s.Alive e := by
    rw [Alive, hr, VM.update_serial, Alive]
  have hv : (s.effect t (.update e u)).Present e ↔ s.Present e := by
    rw [Present, hr, VM.update_id]; rfl
  refine ⟨fun hm q hu => ?_, ?_, ?_, ?_, fun hst hm => ?_, fun ho hal hpr => ?_, fun hl => ?_⟩
  · rw [he] at hm
    obtain ⟨p, hp, hq⟩ := h.covered hm q ⟨ha.1 hu.1, hu.2⟩
    exact ⟨p, by rw [he]; exact hp, hq⟩
  · rw [he]; exact h.proc
  · rw [he, hr]
    intro t' ho
    obtain ⟨hi, hst⟩ := hg.owner h s.clock ho
    refine ⟨(h.owner t' ho).1, hi, hst.imp_right (And.imp_right fun hov => ?_)⟩
    have hsome : (s.entries e).owner.isSome = true := isSome_iff_exists.2 ⟨t', ho⟩
    simpa [System.effect, System.apply, hsome] using hov
  · rw [he]; exact h.late
  · rw [he] at hm
    rw [hv]
    cases hd : u.deletes with
    | false =>
      rw [hr, hg.deleting_iff h hd] at hst
      exact h.deleting hst hm
    | true =>
      cases u with
      | deleting => rw [hg.1] at hm; cases hm
      | _ => cases hd
  · obtain ⟨h1, h2, h3⟩ := h.gone (Bool.or_eq_false_iff.1 ho).1 (ha.1 hal) fun hp => hpr (hv.2 hp)
    refine ⟨by rw [he]; exact h1, fun q hu => h2 q ⟨ha.1 hu.1, hu.2⟩, ?_⟩
    rw [he, hr]
    cases hd : u.deletes with
    | false => rwa [hg.deleting_iff h hd]
    | true =>
      cases u with
      | deleting => exact .inl rfl
      | _ => cases hd
  · simp only [System.effect, System.apply] at hl
    split at hl
    · cases hl
    rename_i hend
    obtain ⟨h1, h2, h3, h4, -⟩ := h.loading hl
    rw [ha, he, hr]
    exact ⟨h1, h2, h3, h4, hg.loading h (by simpa using hend) _ hl⟩

theorem fresh (h : Inv s) (he : s'.entries s.nextEntry = x) (hq : s'.qemus = s.qemus)
    (hx : x.proc = none ∧ x.opMu = none ∧ x.late = false) (hv : s'.Present s.nextEntry)
    (ho : ∀ t, x.owner = some t → x.record.installedAt = none ∧ x.record.state = .creating)
    (hs : x.record.state ≠ .deleting)
    (hl : s'.loading = some s.nextEntry → s'.Alive s.nextEntry ∧ x.owner = none ∧ x.record.state.live = true)
    : EntryInv s' s.nextEntry := by
  obtain ⟨hp, hm, hlate⟩ := hx
  have hr : s'.record s.nextEntry = x.record := congrArg Entry.record he
  have hu : ∀ q, ¬ s'.Unsettled s.nextEntry q := by
    rintro q ⟨-, hent, hset⟩
    rw [hq] at hent hset
    have hlt := h.qemuEntry q hset
    omega
  refine ⟨fun _ q hun => absurd hun (hu q), ?_, ?_, ?_, ?_, fun _ _ hpr => absurd hv hpr, fun hload => ?_⟩
  · rw [he, hp]; simp
  · rw [he, hr]
    exact fun t hown => ⟨hp, (ho t hown).1, .inl (ho t hown).2⟩
  · rw [he, hlate]; simp
  · rw [hr]; exact fun hd => absurd hd hs
  · obtain ⟨h1, h2, h3⟩ := hl hload
    rw [he, hr]
    exact ⟨h1, hp, hm, h2, h3⟩

theorem allocate (h : Inv s) (id machineID : String) (cid : Nat) (spec : Spec) :
    EntryInv (s.effect t (.allocate id machineID cid spec)) s.nextEntry := by
  refine fresh h (update_self ..) rfl ⟨rfl, rfl, rfl⟩ ?_ (fun _ _ => ⟨rfl, rfl⟩) nofun
    (fun hl => ?_)
  · change GoMap.get (s.vms.insert id s.nextEntry) _ = _
    rw [GoMap.get_insert, if_pos]
    simp [System.effect, System.apply, System.record, addEntry, newVM]
  · have hlt := h.alive_lt ((h.entry s.nextEntry).loading hl).1
    omega

end EntryInv

theorem VM.loaded_state (r : VM) : r.loaded.state ≠ .deleting ∧ r.loaded.state ≠ .creating := by
  unfold VM.loaded
  split <;> simp_all

@[simp] theorem VM.loaded_id (r : VM) : r.loaded.id = r.id := by
  unfold VM.loaded
  split <;> rfl

@[simp] theorem VM.loaded_serial (r : VM) : r.loaded.serial = r.serial := by
  unfold VM.loaded
  split <;> rfl

namespace EntryInv

theorem loadEntry (h : Inv s) {r : VM} (hr : s.disk.get r.id = some r) :
    EntryInv (s.effect t (.loadEntry r.id r)) s.nextEntry := by
  have he : (s.effect t (.loadEntry r.id r)).entries s.nextEntry =
      { record := r.loaded, userData := (s.host.userDataFiles.get r.id).getD [] } :=
    update_self ..
  refine fresh h he rfl ⟨rfl, rfl, rfl⟩ ?_ nofun r.loaded_state.1 (fun hl => ?_)
  · rw [Present, System.record, he, VM.loaded_id]
    change GoMap.get (s.vms.insert r.id s.nextEntry) _ = _
    rw [GoMap.get_insert, if_pos rfl]
  · refine ⟨?_, rfl, ?_⟩
    · rw [Alive, System.record, he, VM.loaded_serial]
      exact h.disk _ _ hr
    · simp only [System.effect, System.apply] at hl
      split at hl
      · assumption
      · cases hl

theorem remove (h : Inv s) (hg : s.Releases t (s.record e).id) :
    EntryInv (s.effect t (.remove (s.record e).id)) e := by
  have hv : ¬ (s.effect t (.remove (s.record e).id)).Present e := by
    change GoMap.get (s.vms.erase (s.record e).id) (s.record e).id ≠ some e
    rw [GoMap.get_erase, if_pos rfl]
    simp
  refine ⟨(h.entry e).covered, (h.entry e).proc, (h.entry e).owner, (h.entry e).late,
    fun _ _ => hv, fun ho ha _ => ?_, (h.entry e).loading⟩
  obtain ⟨e', hid, hvac, hk, hst⟩ := hg
  by_cases hp : s.Present e
  · have hp' : s.vms.get (s.record e').id = some e' := hk ho
    rw [hid] at hp'
    have hee : e' = e := some.inj (hp'.symm.trans hp)
    subst hee
    refine ⟨hvac.2.2.1, hvac.2.2.2, hst.imp_right fun hown hnone => ?_⟩
    cases hown.symm.trans hnone
  · exact (h.entry e).gone ho ha hp

theorem runtimeStart (h : EntryInv s e) {cid q : Nat} (hm : (s.entries e).opMu = some t) (hk : s.Kept e) :
    EntryInv (s.effect t (.runtimeStart e phase cid (some q))) e := by
  refine { h with covered := fun hm' => ?_, gone := fun ho _ hpr => absurd (hk ho) hpr }
  have hm'' : (s.entries e).opMu = none := hm'
  rw [hm] at hm''
  cases hm''

theorem track (h : EntryInv s e)
    (hg : (Op.track e phase hs).Guard cfg s t) : EntryInv (s.effect t (.track e phase hs)) e := by
  obtain ⟨hm, ha, hp, hu, hready, hk, hin, hd, -⟩ := hg
  have he := s.track_entry t e phase hs
  have hr := s.track_record t e phase hs
  have hpr : (s.effect t (.track e phase hs)).procs s.nextProc =
      { entry := e, phase := phase, handles := hs, supervisor := some t } := update_self ..
  refine ⟨?_, fun p hpp => ?_, ?_, ?_, ?_, fun ho _ hpres => ?_, fun hl => ?_⟩
  · rw [he]
    exact fun hm' => nomatch hm.symm.trans hm'
  · rw [he] at hpp
    obtain rfl := some.inj hpp
    rw [hpr]
    exact ⟨Nat.lt_succ_self _, rfl, rfl⟩
  · rw [he]; simp
  · rw [he]; exact h.late
  · rw [he]
    exact fun _ hm' => nomatch hm.symm.trans hm'
  · refine absurd ?_ hpres
    rw [Present, hr, VM.update_id]
    exact hk ho
  · cases hm.symm.trans (h.loading hl).2.2.1

theorem reattach (h : EntryInv s e) (hl : s.loading = some e) :
    EntryInv (s.effect t (.reattach e phase hs)) e := by
  obtain ⟨ha, hp, hm, ho, hlive⟩ := h.loading hl
  have he : (s.effect t (.reattach e phase hs)).entries e =
      { s.entries e with proc := some s.nextProc, owner := none } := update_self ..
  have hr : (s.effect t (.reattach e phase hs)).record e = s.record e := by
    rw [System.record, he]; rfl
  have hpr : (s.effect t (.reattach e phase hs)).procs s.nextProc =
      { entry := e, phase := phase, handles := hs, supervisor := some t } := update_self ..
  -- A loaded entry has no QEMU of its own yet: nothing tracks one.
  have hu : ∀ q, ¬ s.Unsettled e q := fun q hq => by
    obtain ⟨p, hpp, -⟩ := h.covered hm q hq
    rw [hp] at hpp
    cases hpp
  refine ⟨fun _ q hq => ?_, fun p hpp => ?_, ?_, ?_, ?_, fun hov _ hpres => ?_, nofun⟩
  · rw [Unsettled, Alive, hr] at hq
    exact absurd hq (hu q)
  · rw [he] at hpp
    obtain rfl := some.inj hpp
    rw [hpr]
    exact ⟨Nat.lt_succ_self _, rfl, rfl⟩
  · rw [he]; simp
  · rw [he]; exact h.late
  · rw [hr]
    intro hst
    rw [hst] at hlive
    cases hlive
  · have hpres' : ¬ s.Present e := by
      rw [Present, hr] at hpres
      exact hpres
    obtain ⟨-, -, hst | hown⟩ := h.gone hov ha hpres'
    · rw [hst] at hlive
      cases hlive
    · exact absurd ho hown

theorem exited (h : EntryInv s e)
    (hp : (s.entries e).proc = some p) : EntryInv (s.effect t (.exited e p exit timeout c)) e := by
  have he := s.exited_entry t e p exit timeout c
  have hr := s.exited_record t e p exit timeout c
  have hserial : ((s.effect t (.exited e p exit timeout c)).record e).serial =
      (s.record e).serial := by rw [hr, VM.update_serial]
  have hid : ((s.effect t (.exited e p exit timeout c)).record e).id = (s.record e).id := by
    rw [hr, VM.update_id]
  have hown : ∀ t', (s.entries e).owner ≠ some t' := fun t' ho => by
    rw [(h.owner t' ho).1] at hp
    cases hp
  refine ⟨fun hm q hu => ?_, ?_, ?_, ?_, ?_, fun ho ha hpr => ?_, fun hl => ?_⟩
  · rw [he] at hm
    obtain ⟨hu, hq⟩ := s.unsettled_of_exited t e hu
    obtain ⟨p', hp', hq'⟩ := h.covered hm q hu
    rw [hp] at hp'
    obtain rfl := some.inj hp'
    exact absurd hq'.symm hq
  · rw [he]; simp
  · rw [he]; exact fun t' ho => absurd ho (hown t')
  · rw [he]; exact h.late
  · rw [he, Present, hid, hr]
    exact fun hst => h.deleting ((VM.onExit_deleting_iff ..).1 hst)
  · rw [Alive, hserial] at ha
    rw [Present, hid] at hpr
    have hnone := (h.gone ho ha hpr).1
    rw [hp] at hnone
    cases hnone
  · have hnone := (h.loading hl).2.1
    rw [hp] at hnone
    cases hnone

end EntryInv

def Op.adds : Op → Bool
  | .allocate .. | .loadEntry .. => true
  | _ => false

def Op.writes (s : System) (e : Nat) : Op → Option Update
  | .update e' u => if e = e' then some u else none
  | .track e' phase h => if e = e' then some (.started phase h) else none
  | .exited e' p exit timeout c =>
    if e = e' then some (.exited (s.procs p).phase (s.procs p).timedOut exit timeout c) else none
  | _ => none

theorem Op.writes_cases (hw : op.writes s e = some u) :
    op = .update e u ∨ (∃ phase h, op = .track e phase h ∧ u = .started phase h) ∨
      ∃ p exit timeout c, op = .exited e p exit timeout c ∧
        u = .exited (s.procs p).phase (s.procs p).timedOut exit timeout c := by
  cases op with
  | update e' u' =>
    simp only [writes] at hw
    split at hw <;> cases hw
    subst e'
    exact .inl rfl
  | track e' phase h =>
    simp only [writes] at hw
    split at hw <;> cases hw
    subst e'
    exact .inr (.inl ⟨phase, h, rfl, rfl⟩)
  | exited e' p exit timeout c =>
    simp only [writes] at hw
    split at hw <;> cases hw
    subst e'
    exact .inr (.inr ⟨p, exit, timeout, c, rfl, rfl⟩)
  | _ => cases hw

def Op.isLoad : Op → Bool
  | .loadDirs _ | .loadSkip _ | .loadEntry _ _ | .loaded => true
  | _ => false

namespace Inv

variable (h : Inv s) (hg : op.Guard cfg s t)
include h hg

theorem entry_effect (e : Nat) : EntryInv (s.effect t op) e := by
  by_cases hc : op.Concerns s e
  swap
  · exact (h.entry e).of_same (h.same hg hc)
  cases op with
  | lock e' => cases hc; exact (h.entry e).lock hg.2.2
  | unlock e' => cases hc; exact (h.entry e).unlock hg.2.1 hg.2.2
  | update e' u => cases hc; exact (h.entry e).update hg.2
  | allocate id machineID cid spec => cases hc; exact .allocate h id machineID cid spec
  | loadEntry id r =>
    cases hc
    obtain ⟨-, -, hr, rfl, -⟩ := hg
    exact .loadEntry h hr
  | remove id => cases hc; exact .remove h hg
  | runtimeStart e' phase cid q =>
    cases hc
    cases q with
    | none =>
      exact (h.entry e).of_same (.of_entry rfl (fun _ h1 h2 => ⟨h1, h2⟩)
        (fun p _ => ⟨le_rfl, rfl, rfl, rfl, rfl⟩) rfl (fun h => h) (fun h => h) fun h => h)
    | some q => exact (h.entry e).runtimeStart hg.1.1 hg.2.2.1
  | track e' phase hs => cases hc; exact (h.entry e).track hg
  | reattach e' phase hs => cases hc; exact (h.entry e).reattach hg.2.1
  | exited e' p exit timeout c => cases hc; exact (h.entry e).exited hg.2.1.1
  | _ => exact hc.elim

theorem record_effect (hne : op.adds = true → e ≠ s.nextEntry) : (s.effect t op).record e = match op.writes s e with
      | some u => (s.record e).update s.clock u
      | none => s.record e := by
  by_cases hc : op.Concerns s e
  · cases op with
    | lock e' | unlock e' | reattach e' =>
      cases hc
      simp [System.effect, System.apply, modifyEntry, addProc, System.record, Op.writes]
    | update e' u => cases hc; simp only [Op.writes, if_true, s.update_record]
    | track e' phase hs => cases hc; simp only [Op.writes, if_true, s.track_record]
    | exited e' p exit timeout c => cases hc; simp only [Op.writes, if_true, s.exited_record]
    | allocate | loadEntry => exact absurd hc (hne rfl)
    | remove | runtimeStart => rfl
    | _ => exact hc.elim
  · have hw : op.writes s e = none := by
      cases op with
      | update e' | track e' | exited e' => exact if_neg hc
      | _ => rfl
    rw [(h.same hg hc).record, hw]

theorem opMu_effect (e : Nat) : (op = .lock e ∧ ((s.effect t op).entries e).opMu = some t) ∨
      (op = .unlock e ∧ ((s.effect t op).entries e).opMu = none) ∨
      ((s.effect t op).entries e).opMu = (s.entries e).opMu := by
  by_cases hc : op.Concerns s e
  swap
  · exact .inr (.inr (h.same hg hc).opMu)
  cases op with
  | lock e' =>
    cases hc
    exact .inl ⟨rfl, by simp [System.effect, System.apply, modifyEntry]⟩
  | unlock e' =>
    cases hc
    exact .inr (.inl ⟨rfl, by simp [System.effect, System.apply, modifyEntry]⟩)
  | update => cases hc; exact .inr (.inr (by rw [s.update_entry]))
  | track => cases hc; exact .inr (.inr (by rw [s.track_entry]))
  | exited => cases hc; exact .inr (.inr (by rw [s.exited_entry]))
  | reattach =>
    cases hc
    exact .inr (.inr (by simp [System.effect, System.apply, addProc]))
  | allocate | loadEntry =>
    cases hc
    exact .inr (.inr (by simp [System.effect, System.apply, addEntry, h.freshEntry _ le_rfl, noEntry]))
  | remove | runtimeStart => exact .inr (.inr rfl)
  | _ => exact hc.elim

theorem proc_effect (e : Nat) : ((s.effect t op).entries e).proc = (s.entries e).proc ∨
      (((∃ phase hs, op = .track e phase hs) ∨ ∃ phase hs, op = .reattach e phase hs) ∧ (s.entries e).proc = none ∧
        ((s.effect t op).entries e).proc = some s.nextProc) ∨
      (∃ p exit timeout c, op = .exited e p exit timeout c) ∧ ((s.effect t op).entries e).proc = none := by
  by_cases hc : op.Concerns s e
  swap
  · exact .inl (h.same hg hc).proc
  cases op with
  | track e' phase hs =>
    cases hc
    exact .inr (.inl ⟨.inl ⟨phase, hs, rfl⟩, hg.2.2.1, by rw [s.track_entry]⟩)
  | reattach e' phase hs =>
    cases hc
    refine .inr (.inl ⟨.inr ⟨phase, hs, rfl⟩, ((h.entry e).loading hg.2.1).2.1, ?_⟩)
    simp [System.effect, System.apply, addProc]
  | exited e' p exit timeout c =>
    cases hc
    exact .inr (.inr ⟨⟨p, exit, timeout, c, rfl⟩, by rw [s.exited_entry]⟩)
  | lock | unlock => cases hc; exact .inl (by simp [System.effect, System.apply, modifyEntry])
  | update => cases hc; exact .inl (by rw [s.update_entry])
  | allocate | loadEntry =>
    cases hc
    exact .inl (by simp [System.effect, System.apply, addEntry, h.freshEntry _ le_rfl, noEntry])
  | remove | runtimeStart => exact .inl rfl
  | _ => exact hc.elim

private theorem ident_of_ne (hne : op.adds = true → e ≠ s.nextEntry) : ((s.effect t op).record e).id = (s.record e).id ∧
      ((s.effect t op).record e).serial = (s.record e).serial ∧
      ((s.effect t op).record e).spec = (s.record e).spec := by
  rw [h.record_effect hg hne]
  cases op.writes s e with
  | none => exact ⟨rfl, rfl, rfl⟩
  | some u => exact ⟨VM.update_id .., VM.update_serial .., VM.update_spec ..⟩

theorem ident (ha : s.Alive e) : ((s.effect t op).record e).id = (s.record e).id ∧
      ((s.effect t op).record e).serial = (s.record e).serial ∧ ((s.effect t op).record e).spec = (s.record e).spec :=
  h.ident_of_ne hg fun _ => (h.alive_lt ha).ne

theorem alive_of_effect (ha : (s.effect t op).Alive e) : s.Alive e ∨ (op.adds = true ∧ e = s.nextEntry) := by
  by_contra hn
  rw [not_or, not_and] at hn
  rw [Alive, (h.ident_of_ne hg hn.2).2.1] at ha
  exact hn.1 ha

theorem alive_effect (ha : s.Alive e) : (s.effect t op).Alive e := by
  rw [Alive, (h.ident hg ha).2.1]; exact ha

theorem entries_fresh (he : s.nextEntry ≤ e)
    (hc : op.adds = true → e ≠ s.nextEntry) : (s.effect t op).entries e = noEntry := by
  have hold := h.freshEntry e he
  have hdead : ¬ s.Alive e := fun ha => absurd (h.alive_lt ha) (by omega)
  have hm : ∀ t', (s.entries e).opMu ≠ some t' := by rw [hold]; exact nofun
  cases op with
  | lock e' | update e' | track e' | exited e' | setVolume e' | release e' | unlock e' | reattach e' =>
    have hne : e ≠ e' := by
      rintro rfl
      first
        | exact hdead hg.1
        | exact hdead hg.2.1
        | exact hdead hg
        | exact hm t hg.1
        | exact hdead ((h.entry e).loading hg.2.1).1
    simpa [System.effect, System.apply, modifyEntry, updateRec, addProc,
      dropProc, update_of_ne hne] using hold
  | allocate | loadEntry =>
    have hne : e ≠ s.nextEntry := hc rfl
    simpa [System.effect, System.apply, addEntry, update_of_ne hne] using hold
  | _ => exact hold

end Inv

end VmManager.Vm
