import VmManager.Vm.Invariant

/-! The invariant of the service holds in every state: guarded operations and outside events keep it.
On the way, what an operation does to the identity of entries, to vm.json and to Load. -/
namespace VmManager.Vm
open Encoding Attest Interleaving List Option Function GoMap Vm.System
variable {cfg : Config} {s s' : System} {t e q n : Nat} {op : Op} {u : Update} {id : String} {x : Outside}

namespace Inv

theorem vms_effect (h : Inv s) (hg : op.Guard cfg s t) (hv : (s.effect t op).vms.get id = some e) :
    (s.effect t op).Alive e ∧ ((s.effect t op).record e).id = id := by
  have hold : s.vms.get id = some e →
      (s.effect t op).Alive e ∧ ((s.effect t op).record e).id = id := by
    intro hx
    obtain ⟨ha, rfl⟩ := h.vms id e hx
    exact ⟨h.alive_effect hg ha, (h.ident hg ha).1⟩
  cases op with
  | allocate id' machineID cid spec =>
    change GoMap.get (s.vms.insert id' s.nextEntry) id = some e at hv
    rw [get_insert] at hv
    split at hv
    · obtain rfl := some.inj hv
      subst id
      refine ⟨?_, ?_⟩
      · simpa [effect, apply, addEntry, Alive, System.record, newVM] using h.serial
      · simp [effect, apply, addEntry, System.record, newVM]
    · exact hold hv
  | loadEntry id' r =>
    change GoMap.get (s.vms.insert id' s.nextEntry) id = some e at hv
    rw [get_insert] at hv
    split at hv
    · obtain rfl := some.inj hv
      subst id
      refine ⟨?_, ?_⟩
      · simpa [effect, apply, addEntry, Alive, System.record] using
          h.disk _ _ hg.2.2.1
      · simpa [effect, apply, addEntry, System.record] using hg.2.2.2.1
    · exact hold hv
  | remove id' =>
    change GoMap.get (s.vms.erase id') id = some e at hv
    rw [get_erase] at hv
    split at hv
    · cases hv
    · exact hold hv
  | _ => exact hold hv

theorem freshQemu_effect (h : Inv s) (hg : op.Guard cfg s t)
    (hq : (s.effect t op).nextQemu ≤ q) : (s.effect t op).qemus q = noQemu := by
  cases op with
  | runtimeStart e' phase cid q' =>
    cases q' with
    | none => exact h.freshQemu q hq
    | some q' =>
      have hq' : q' = s.nextQemu := hg.2.2.2.2.1 q' rfl
      have hle : q' + 1 ≤ q := hq
      have hne : q ≠ q' := by omega
      simpa [effect, apply, update_of_ne hne] using
        h.freshQemu q (by omega)
  | exited e' p exit timeout c =>
    have hold := h.freshQemu q hq
    by_cases hne : q = (s.procs p).handles.qemu
    · subst hne
      simp only [effect, apply, updateRec, dropProc, update_self, hold]
      rfl
    · simpa [effect, apply, updateRec, dropProc, update_of_ne hne] using hold
  | _ => exact h.freshQemu q hq

theorem qemuEntry_effect (h : Inv s) (hg : op.Guard cfg s t) (hq : ((s.effect t op).qemus q).settled = false) :
    ((s.effect t op).qemus q).entry < (s.effect t op).nextEntry := by
  cases op with
  | runtimeStart e' phase cid q' =>
    cases q' with
    | none => exact h.qemuEntry q hq
    | some q' =>
      by_cases hne : q = q'
      · subst hne
        simpa [effect, apply] using h.alive_lt hg.1.2.1
      · simp only [effect, apply, Option.elim_some, update_of_ne hne] at hq ⊢
        exact h.qemuEntry q hq
  | exited e' p exit timeout c =>
    by_cases hne : q = (s.procs p).handles.qemu
    · simp [effect, apply, updateRec, dropProc, hne] at hq
    · simp only [effect, apply, updateRec, dropProc, update_of_ne hne] at hq ⊢
      exact h.qemuEntry q hq
  | allocate | loadEntry => exact Nat.lt_succ_of_lt (h.qemuEntry q hq)
  | _ => exact h.qemuEntry q hq

theorem disk_effect (h : Inv s) (hg : op.Guard cfg s t) {r : VM}
    (hr : (s.effect t op).disk.get id = some r) : s.disk.get id = some r ∨
      ∃ e, (s.effect t op).Alive e ∧ r = (s.effect t op).record e ∧ r.id = id := by
  have hsave : ∀ {e : Nat} {b : Bool} {m : GoMap String VM},
      m = (if b then s.disk.insert ((s.effect t op).record e).id ((s.effect t op).record e)
        else s.disk) → s.Alive e → m.get id = some r →
      s.disk.get id = some r ∨
        ∃ e, (s.effect t op).Alive e ∧ r = (s.effect t op).record e ∧ r.id = id := by
    intro e b m hm ha hx
    cases b with
    | false =>
      rw [hm] at hx
      exact .inl hx
    | true =>
      rw [hm, if_pos rfl, get_insert] at hx
      split at hx
      · obtain rfl := some.inj hx
        exact .inr ⟨e, h.alive_effect hg ha, rfl, by symm; assumption⟩
      · exact .inl hx
  cases op with
  | update e' u =>
    refine hsave (e := e') (b := u.saves && s.writable) ?_ hg.1 hr
    simp [effect, apply, updateRec, System.record]
  | track e' phase hs =>
    refine hsave (e := e') (b := (Update.started phase hs).saves && s.writable) ?_ hg.2.1 hr
    simp [effect, apply, updateRec, addProc, System.record]
  | exited e' p exit timeout c =>
    refine hsave (e := e') (b := true && s.writable) ?_ hg.1 hr
    simp [effect, apply, updateRec, dropProc, System.record, Update.saves]
  | allocate id' machineID cid spec =>
    change GoMap.get (s.disk.insert id' (s.newVM id' machineID cid spec)) id = some r at hr
    rw [get_insert] at hr
    split at hr
    · obtain rfl := some.inj hr
      subst id
      have hrec : (s.effect t (.allocate id' machineID cid spec)).record s.nextEntry =
          s.newVM id' machineID cid spec := by
        simp [effect, apply, addEntry, System.record]
      refine .inr ⟨s.nextEntry, ?_, hrec.symm, rfl⟩
      rw [Alive, hrec]
      exact h.serial
    · exact .inl hr
  | removeDir id' | undoAllocate id' =>
    change GoMap.get (s.disk.erase id') id = some r at hr
    rw [get_erase] at hr
    split at hr
    · cases hr
    · exact .inl hr
  | _ => exact .inl hr

theorem loading_effect (hg : op.Guard cfg s t) (hne : op.isLoad = false) :
    (s.effect t op).loader = s.loader ∧ (s.effect t op).pendingLoad = s.pendingLoad ∧
      (s.effect t op).serving = s.serving ∧
      ((s.effect t op).loading = s.loading ∨ (s.effect t op).loading = none) := by
  cases op with
  | loadDirs | loadSkip | loadEntry | loaded => cases hne
  | update e' u =>
    refine ⟨rfl, rfl, rfl, ?_⟩
    simp only [effect, apply]
    split
    · exact .inr rfl
    · exact .inl rfl
  | reattach => exact ⟨rfl, rfl, rfl, .inr rfl⟩
  | _ => exact ⟨rfl, rfl, rfl, .inl rfl⟩

theorem pending_effect (h : Inv s) (hg : op.Guard cfg s t) {ids : List String}
    (hp : (s.effect t op).pendingLoad = some ids) :
    ids.Nodup ∧ ∀ e, (s.effect t op).Alive e → ((s.effect t op).record e).id ∉ ids := by
  have hold : ∀ {ids' : List String}, s.pendingLoad = some ids' → ids.Sublist ids' →
      (op.adds = false ∨ ((s.effect t op).record s.nextEntry).id ∉ ids) →
      ids.Nodup ∧ ∀ e, (s.effect t op).Alive e → ((s.effect t op).record e).id ∉ ids := by
    intro ids' hp' hsub hnew
    obtain ⟨hnd, hall⟩ := h.pending ids' hp'
    refine ⟨hnd.sublist hsub, fun e ha => ?_⟩
    obtain ha | ⟨hadd, rfl⟩ := h.alive_of_effect hg ha
    · rw [(h.ident hg ha).1]
      exact fun hin => hall e ha (hsub.subset hin)
    · exact hnew.resolve_left (by simp [hadd])
  cases op with
  | loadDirs ids' =>
    obtain ⟨hl, hnone, rfl⟩ := hg
    obtain rfl := some.inj hp
    refine ⟨(perm_insertionSort _ _).nodup_iff.2 s.disk.nodupKeys, fun e ha => ?_⟩
    exact absurd ha (h.unlisted (by rw [hl]; simp) hnone e)
  | loadSkip id =>
    obtain ⟨-, -, ⟨rest, hr⟩, -⟩ := hg
    simp only [effect, apply, hr, map_some, tail_cons] at hp
    obtain rfl := some.inj hp
    exact hold hr (sublist_cons_self ..) (.inl rfl)
  | loadEntry id r =>
    obtain ⟨-, -, -, hid, ⟨rest, hr⟩, -⟩ := hg
    simp only [effect, apply, hr, map_some, tail_cons] at hp
    obtain rfl := some.inj hp
    refine hold hr (sublist_cons_self ..) (.inr ?_)
    simp only [effect, apply, System.record, addEntry, update_self, VM.loaded_id, hid]
    exact (nodup_cons.1 (h.pending _ hr).1).1
  | loaded => cases hp
  | allocate =>
    have hnone : s.pendingLoad = none := (h.loader (h.serving hg.1)).1
    cases hp.symm.trans hnone
  | _ => exact hold hp (Sublist.refl _) (.inl rfl)

theorem nextEntry_effect (s : System) (t : Nat) (op : Op) :
    (s.effect t op).nextEntry = s.nextEntry + (if op.adds then 1 else 0) := by
  cases op with
  | _ => rfl

theorem nextSerial_effect (s : System) (t : Nat) (op : Op) :
    s.nextSerial ≤ (s.effect t op).nextSerial := by
  cases op with
  | allocate => exact Nat.le_succ _
  | _ => exact le_rfl

theorem nets_effect (h : Inv s) (hg : op.Guard cfg s t) : (s.effect t op).nets.Consistent := by
  cases op with
  | net o =>
    cases o with
    | attach e n id ip => exact h.nets.attach n id
    | detach e n id => exact h.nets.detach n id
    | add spec leases =>
      obtain ⟨-, -, m, hm⟩ := hg
      have hadd : (s.effect t (.net (.add spec leases))).nets = m := by
        simp [effect, apply, NetOp.onNets, hm, Except.toOption]
      rw [hadd]
      exact h.nets.add hm
    | delete name n clean => exact h.nets.delete hg.2.2
    | _ => exact h.nets
  | _ => exact h.nets

theorem effect (h : Inv s) (hg : op.Guard cfg s t) : Inv (s.effect t op) where
  entry := h.entry_effect hg
  vms _ _ hv := h.vms_effect hg hv
  freshEntry e he := by
    rw [nextEntry_effect] at he
    refine h.entries_fresh hg (by omega) fun hadd => ?_
    rw [if_pos hadd] at he
    omega
  freshQemu _ hq := h.freshQemu_effect hg hq
  qemuEntry _ hq := h.qemuEntry_effect hg hq
  pending _ hp := h.pending_effect hg hp
  unlisted hl hp e ha := by
    cases hload : op.isLoad with
    | false =>
      obtain ⟨h1, h2, -, -⟩ := loading_effect hg hload
      rw [h1] at hl
      rw [h2] at hp
      obtain ha | ⟨hadd, -⟩ := h.alive_of_effect hg ha
      · exact h.unlisted hl hp e ha
      · cases op with
        | allocate => exact hl (h.serving hg.1)
        | loadEntry => cases hload
        | _ => cases hadd
    | true =>
      cases op with
      | loadDirs => cases hp
      | loadSkip id =>
        obtain ⟨-, -, ⟨rest, hr⟩, -⟩ := hg
        simp [effect, apply, hr] at hp
      | loadEntry id r =>
        obtain ⟨-, -, -, -, ⟨rest, hr⟩, -⟩ := hg
        simp [effect, apply, hr] at hp
      | loaded => exact hl rfl
      | _ => cases hload
  loader hl := by
    cases hload : op.isLoad with
    | false =>
      obtain ⟨h1, h2, -, h4⟩ := loading_effect hg hload
      rw [h1] at hl
      rw [h2]
      obtain ⟨h5, h6⟩ := h.loader hl
      exact ⟨h5, h4.elim (·.trans h6) id⟩
    | true =>
      cases op with
      | loadDirs | loadSkip | loadEntry => cases hg.1.symm.trans hl
      | loaded => exact ⟨rfl, hg.2.1⟩
      | _ => cases hload
  serving hs := by
    cases hload : op.isLoad with
    | false =>
      obtain ⟨h1, -, h3, -⟩ := loading_effect hg hload
      rw [h1]
      exact h.serving (h3 ▸ hs)
    | true =>
      cases op with
      | loadDirs | loadSkip | loadEntry => exact h.serving hs
      | loaded => rfl
      | _ => cases hload
  closing hc := by
    have hserv : s.serving = true → (s.effect t op).serving = true := by
      cases op with
      | loaded => exact fun _ => rfl
      | _ => exact fun hs => hs
    apply hserv
    cases op with
    | shutdown o => cases o with
      | begins es => exact hg.1
      | _ => exact h.closing hc
    | _ => exact h.closing hc
  down hup := by
    have hup' : s.up = false := by
      cases op with
      | _ => exact hup
    obtain ⟨h1, h2, h3⟩ := h.down hup'
    have hdown : op.isLoad = false ∧ op.adds = false := by
      cases op with
      | allocate => cases hg.1.symm.trans h1
      | loadDirs | loadSkip | loadEntry | loaded => cases hg.1.symm.trans h2
      | _ => exact ⟨rfl, rfl⟩
    obtain ⟨h4, -, h5, -⟩ := loading_effect hg hdown.1
    refine ⟨h5.trans h1, h4.trans h2, fun e ha => ?_⟩
    obtain ha | ⟨hadd, -⟩ := h.alive_of_effect hg ha
    · exact h3 e ha
    · cases hadd.symm.trans hdown.2
  serial hz := h.serial (Nat.le_zero.1 (hz ▸ nextSerial_effect s t op))
  disk id r hr := by
    obtain hr | ⟨e, ha, rfl, -⟩ := h.disk_effect hg hr
    · exact h.disk id r hr
    · exact ha
  nets := h.nets_effect hg

end Inv

theorem EntryInv.dead (he : s.entries e = noEntry) (hl : s.loading = none) : EntryInv s e := by
  have ha : ¬ s.Alive e := by simp [Alive, System.record, he, noEntry, noVM]
  refine ⟨fun _ q hu => absurd hu.1 ha, ?_, ?_, ?_, ?_, fun _ hal => absurd hal ha, ?_⟩
  all_goals simp [System.record, he, hl, noEntry, noVM]

theorem System.outside_eq (hx : s.outside n x = some s') (hne : x ≠ .crash) :
    ∃ qemus clock writable up loader, s' = { s with
        qemus := qemus, clock := clock, writable := writable, up := up, loader := loader } ∧
      (∀ q, (qemus q).vm = (s.qemus q).vm ∧ (qemus q).entry = (s.qemus q).entry ∧
        (qemus q).phase = (s.qemus q).phase ∧ (qemus q).settled = (s.qemus q).settled ∧
        ∀ x, (s.qemus q).exit = some x → (qemus q).exit = some x) ∧
      (∀ q, s.nextQemu ≤ q → qemus q = s.qemus q) ∧
      (up = s.up ∧ loader = s.loader ∨ s.up = false ∧ up = true ∧ loader = some n) := by
  cases x with
  | exit q status =>
    simp only [System.outside] at hx
    split at hx <;> cases hx
    rename_i hrun
    refine ⟨_, _, _, _, _, rfl, fun q' => ?_, fun q' hq' => ?_, .inl ⟨rfl, rfl⟩⟩
    · by_cases hqq : q' = q
      · subst hqq
        simp [hrun.2]
      · simp [update_of_ne hqq]
    · exact update_of_ne (hrun.1.trans_le hq').ne' ..
  | crash => exact absurd rfl hne
  | start =>
    simp only [System.outside] at hx
    split at hx <;> cases hx
    rename_i hup
    exact ⟨_, _, _, _, _, rfl, fun _ => ⟨rfl, rfl, rfl, rfl, fun _ h => h⟩, fun _ _ => rfl,
      .inr ⟨by simpa using hup, rfl, rfl⟩⟩
  | message =>
    simp only [System.outside] at hx
    split at hx <;> cases hx
    exact ⟨_, _, _, _, _, rfl, fun _ => ⟨rfl, rfl, rfl, rfl, fun _ h => h⟩, fun _ _ => rfl, .inl ⟨rfl, rfl⟩⟩
  | tick | disk =>
    cases hx
    exact ⟨_, _, _, _, _, rfl, fun _ => ⟨rfl, rfl, rfl, rfl, fun _ h => h⟩, fun _ _ => rfl, .inl ⟨rfl, rfl⟩⟩

namespace Inv

theorem crash (h : Inv s) : Inv s.forget where
  entry _ := .dead rfl rfl
  vms _ _ hv := absurd hv get_empty_ne
  freshEntry _ _ := rfl
  freshQemu := h.freshQemu
  qemuEntry := h.qemuEntry
  pending := nofun
  unlisted hl := absurd rfl hl
  loader _ := ⟨rfl, rfl⟩
  serving := nofun
  closing := nofun
  down _ := ⟨rfl, rfl, fun _ ha => ha rfl⟩
  serial := h.serial
  disk := h.disk
  nets := .empty

theorem outside (h : Inv s) (hx : s.outside n x = some s') : Inv s' := by
  by_cases hne : x = .crash
  · subst hne
    simp only [System.outside] at hx
    split at hx <;> cases hx
    exact h.crash
  obtain ⟨qemus, clock, writable, up, loader, rfl, hq, hfresh, hup⟩ := outside_eq hx hne
  have hnew := fun q hle => (hfresh q hle).trans (h.freshQemu q hle)
  have hold : ∀ q, (qemus q).settled = false → (qemus q).entry < s.nextEntry := by
    intro q hs
    obtain ⟨-, he, -, hset, -⟩ := hq q
    exact he ▸ h.qemuEntry q (hset ▸ hs)
  have hentry : ∀ e, EntryInv { s with
      qemus := qemus, clock := clock, writable := writable, up := up, loader := loader } e :=
    fun e => (h.entry e).of_same (.of_entry rfl (fun q h1 h2 => ⟨(hq q).2.1 ▸ h1, (hq q).2.2.2.1 ▸ h2⟩)
      (fun _ _ => ⟨le_rfl, rfl, rfl, rfl, rfl⟩) rfl (fun h => h) (fun h => h) fun h => h)
  rcases hup with ⟨rfl, rfl⟩ | ⟨hdown, rfl, rfl⟩
  · exact { h with entry := hentry, freshQemu := hnew, qemuEntry := hold }
  · obtain ⟨hserving, -, hdead⟩ := h.down hdown
    exact { h with
      entry := hentry
      freshQemu := hnew
      qemuEntry := hold
      unlisted := fun _ _ => hdead
      loader := nofun
      serving := fun hs => nomatch hs.symm.trans hserving
      down := nofun }

theorem start : Inv {} where
  entry _ := .dead rfl rfl
  vms _ _ hv := absurd hv get_empty_ne
  freshEntry _ _ := rfl
  freshQemu _ _ := rfl
  qemuEntry := nofun
  pending := nofun
  unlisted hl := absurd rfl hl
  loader _ := ⟨rfl, rfl⟩
  serving := nofun
  closing := nofun
  down _ := ⟨rfl, rfl, fun _ ha => ha rfl⟩
  serial := Nat.one_ne_zero
  disk _ _ hr := absurd hr get_empty_ne
  nets := .empty

end Inv

end VmManager.Vm
