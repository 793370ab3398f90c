import VmManager.Data.FirstFree
import VmManager.Vm.Coherence

/-! The vsock context ids of the VMs. The search for a free one is first taken as Go runs it, in 32 and
64 bits, and agrees with the search of the service model; from there on, what the search promises is all
that is used. In a run the VMs of the service have different ids, as long as none is moved while Load
still reads records. -/
namespace VmManager.Vm
open Interleaving List GoMap Vm.System Option
variable {ids : List String} {ev : Event} {id : String} {r : VM} {rounds cid i : Nat}

/-! The search in the arithmetic of the source. -/
section Search

def minCID32 : UInt32 := 3
def maxCID32 : UInt32 := 0xfffffffe
def cidSpan : UInt64 := (maxCID32 - minCID32).toUInt64

def cidStart (start : UInt32) : UInt32 :=
  if start < minCID32 || maxCID32 ≤ start then minCID32 else start

def cidAt (start : UInt32) (i : UInt64) : UInt32 := minCID32 + (((start - minCID32).toUInt64 + i) % cidSpan).toUInt32

/-- The loop of `freeCIDFrom` from round `i` on; the first argument bounds the rounds. -/
def searchCID (used : UInt32 → Bool) (start : UInt32) : Nat → UInt64 → Option UInt32
  | 0, _ => none
  | rounds + 1, i =>
    if i < cidSpan then
      if !used (cidAt start i) then some (cidAt start i)
      else searchCID used start rounds (i + 1)
    else some maxCID32

def freeCIDFrom (used : UInt32 → Bool) (start : UInt32) (rounds : Nat) : Option UInt32 :=
  searchCID used (cidStart start) rounds 0

def cidReached (start i : Nat) : Nat :=
  let start := if start < minCID ∨ maxCID ≤ start then minCID else start
  minCID + (start - minCID + i) % (maxCID - minCID)

theorem cidSpan_toNat : cidSpan.toNat = maxCID - minCID := by decide

theorem cidReached_range (start i : Nat) :
    minCID ≤ cidReached start i ∧ cidReached start i < maxCID := by
  have hlt := Nat.mod_lt ((if start < minCID ∨ maxCID ≤ start then minCID
    else start) - minCID + i) (show 0 < maxCID - minCID by decide)
  simp only [cidReached]
  omega

theorem cidStart_toNat (start : UInt32) : (cidStart start).toNat =
    if start.toNat < minCID ∨ maxCID ≤ start.toNat then minCID
    else start.toNat := by
  unfold cidStart
  simp only [Bool.or_eq_true, decide_eq_true_eq, UInt32.lt_iff_toNat_lt, UInt32.le_iff_toNat_le]
  change (if start.toNat < minCID ∨ maxCID ≤ start.toNat then minCID32 else start).toNat = _
  split
  · rfl
  · rfl

theorem cidAt_toNat (start : UInt32) (hi : i < maxCID - minCID) :
    (cidAt (cidStart start) (UInt64.ofNat i)).toNat = cidReached start.toNat i := by
  have hstart := cidStart_toNat start
  have hlow : minCID ≤ (cidStart start).toNat ∧ (cidStart start).toNat < maxCID := by
    rw [hstart]
    split
    · decide
    · omega
  have hreached : cidReached start.toNat i = minCID +
      ((cidStart start).toNat - minCID + i) % (maxCID - minCID) := by
    rw [hstart]
    rfl
  have hsub : (cidStart start - minCID32).toNat = (cidStart start).toNat - minCID :=
    UInt32.toNat_sub_of_le _ _ (UInt32.le_iff_toNat_le.2 hlow.1)
  have hspan : maxCID - minCID = 4294967291 := by decide
  have hmin : minCID32.toNat = minCID := rfl
  have hthree : minCID = 3 := rfl
  rw [hreached, cidAt, UInt32.toNat_add, UInt64.toNat_toUInt32, UInt64.toNat_mod, UInt64.toNat_add,
    cidSpan_toNat, UInt32.toNat_toUInt64, UInt64.toNat_ofNat', hsub, hmin, hspan]
  omega

theorem cidAt_eq (start : UInt32) (hi : i < maxCID - minCID) :
    cidAt (cidStart start) (UInt64.ofNat i) = UInt32.ofNat (cidReached start.toNat i) := by
  rw [← cidAt_toNat start hi, UInt32.ofNat_toNat]

theorem searchCID_spec (used : UInt32 → Bool) (start : UInt32) (k : Nat) :
    ∀ i rounds, i + k = maxCID - minCID → k < rounds →
      searchCID used (cidStart start) rounds (UInt64.ofNat i) =
        some (UInt32.ofNat ((((range' i k).map (cidReached start.toNat)).find? fun cid =>
          !used (UInt32.ofNat cid)).getD maxCID)) := by
  have hsmall : maxCID - minCID < 2 ^ 64 := by decide
  induction k with
  | zero =>
    intro i rounds hi hr
    obtain ⟨r, rfl⟩ : ∃ r, rounds = r + 1 := ⟨rounds - 1, by omega⟩
    have hend : ¬ UInt64.ofNat i < cidSpan := by
      rw [UInt64.lt_iff_toNat_lt, cidSpan_toNat, UInt64.toNat_ofNat', ← hi]
      omega
    simp only [searchCID, if_neg hend, range'_zero, map_nil, find?_nil, getD_none]
    rfl
  | succ k ih =>
    intro i rounds hi hr
    obtain ⟨r, rfl⟩ : ∃ r, rounds = r + 1 := ⟨rounds - 1, by omega⟩
    have hgo : UInt64.ofNat i < cidSpan := by
      rw [UInt64.lt_iff_toNat_lt, cidSpan_toNat, UInt64.toNat_ofNat', ← hi]
      omega
    have hnext : UInt64.ofNat i + 1 = UInt64.ofNat (i + 1) := (UInt64.ofNat_add i 1).symm
    have hrest := ih (i + 1) r (by omega) (by omega)
    rw [range'_succ, map_cons, find?_cons]
    simp only [searchCID, if_pos hgo, hnext, hrest, cidAt_eq start (show i < _ by omega)]
    cases hused : used (UInt32.ofNat (cidReached start.toNat i)) with
    | false => simp
    | true => simp

theorem freeCIDFrom_first (used : UInt32 → Bool) (start : UInt32)
    (hr : maxCID - minCID < rounds) : ∃ cid, freeCIDFrom used start rounds = some cid ∧
      FirstFree (fun c => used (UInt32.ofNat c) = true) (cidReached start.toNat)
        (maxCID - minCID) maxCID cid.toNat := by
  have hsearch := searchCID_spec used start _ 0 rounds (Nat.zero_add _) hr
  rw [← range_eq_range'] at hsearch
  have hfirst : FirstFree (fun c => used (UInt32.ofNat c) = true) (cidReached start.toNat)
      (maxCID - minCID) maxCID _ :=
    .of_find (fun c => !used (UInt32.ofNat c)) (by simp)
  refine ⟨_, hsearch, ?_⟩
  rw [UInt32.toNat_ofNat', Nat.mod_eq_of_lt]
  · exact hfirst
  · rcases hfirst with ⟨j, -, hj, -⟩ | ⟨hfull, -⟩
    · rw [hj]
      exact (cidReached_range _ j).2.trans (by decide)
    · rw [hfull]
      decide

end Search

theorem cidReached_inj {start i j : Nat} (hi : i < maxCID - minCID)
    (hj : j < maxCID - minCID) (h : cidReached start i = cidReached start j) :
    i = j := by
  have hspan : maxCID - minCID = 4294967291 := by decide
  simp only [cidReached, hspan] at h hi hj
  omega

theorem cidReached_succ_ne {cid j : Nat} (hj : j + 1 < maxCID - minCID) :
    cidReached (cid + 1) j ≠ cid := by
  have hmin : minCID = 3 := rfl
  have hmax : maxCID = 4294967294 := rfl
  simp only [cidReached, hmin, hmax] at hj ⊢
  split
  · omega
  · omega

namespace System
variable (s : System)

theorem freeCIDFrom_first (start : Nat) :
    FirstFree (· ∈ s.usedCIDs) (cidReached start) (maxCID - minCID) maxCID (s.freeCIDFrom start) := by
  refine FirstFree.of_enough (fun i hi j hj => cidReached_inj hi hj) rfl ?_
  exact .of_find (fun cid => !s.usedCIDs.contains cid) (by simp)

theorem freeCIDFrom_source (start : UInt32) (hr : maxCID - minCID < rounds) :
    ∃ cid, Vm.freeCIDFrom (fun c => s.usedCIDs.contains c.toNat) start rounds = some cid ∧
      cid.toNat = s.freeCIDFrom start.toNat := by
  obtain ⟨cid, hcid, hfirst⟩ := Vm.freeCIDFrom_first (fun c => s.usedCIDs.contains c.toNat) start hr
  refine ⟨cid, hcid, (hfirst.congr fun j _ => ?_).unique (s.freeCIDFrom_first start.toNat)⟩
  have hlt : cidReached start.toNat j < 2 ^ 32 := (cidReached_range start.toNat j).2.trans (by decide)
  rw [UInt32.toNat_ofNat', Nat.mod_eq_of_lt hlt, contains_iff_mem]

theorem usedCIDs_length : s.usedCIDs.length = s.vms.entries.length := length_map ..

theorem freeCIDFrom_free (start : Nat) (h : s.vms.entries.length < maxCID - minCID) :
    s.freeCIDFrom start ∉ s.usedCIDs ∧ minCID ≤ s.freeCIDFrom start ∧
      s.freeCIDFrom start < maxCID := by
  rcases s.freeCIDFrom_first start with ⟨j, hj, hr, hfree, -⟩ | ⟨-, hall⟩
  · rw [hr]
    exact ⟨hfree, cidReached_range start j⟩
  · obtain ⟨j, hj, hfree⟩ := FirstFree.exists_free (fun i hi j hj => cidReached_inj hi hj)
      (s.usedCIDs_length ▸ h)
    exact absurd (hall j hj) hfree

theorem freeCIDFrom_succ_ne (cid : Nat) (h : s.vms.entries.length + 1 < maxCID - minCID) :
    s.freeCIDFrom (cid + 1) ≠ cid := by
  have hlen : s.usedCIDs.length < maxCID - minCID - 1 := by
    rw [s.usedCIDs_length]
    omega
  have hinj : ∀ i < maxCID - minCID - 1, ∀ j < maxCID - minCID - 1,
      cidReached (cid + 1) i = cidReached (cid + 1) j → i = j :=
    fun i hi j hj => cidReached_inj (by omega) (by omega)
  obtain ⟨i, hi, hfree⟩ := FirstFree.exists_free hinj hlen
  rcases s.freeCIDFrom_first (cid + 1) with ⟨j, hj, hr, -, hbefore⟩ | ⟨-, hall⟩
  · have hle : ¬ i < j := fun hlt => hfree (hbefore i hlt)
    rw [hr]
    exact cidReached_succ_ne (by omega)
  · exact absurd (hall i (by omega)) hfree

def ValidCID (cid : Nat) : Prop := minCID ≤ cid ∧ cid < maxCID

def DistinctOnDisk : Prop := ∀ id r, s.disk.get id = some r → r.id = id → ValidCID r.cid ∧
  ∀ id' r', s.disk.get id' = some r' → r'.id = id' → r'.cid = r.cid → id' = id

structure DistinctCIDs : Prop where
  valid : ∀ e, s.Present e → ValidCID (s.record e).cid
  distinct : ∀ e e', s.Present e → s.Present e' → (s.record e).cid = (s.record e').cid → e = e'
  few : s.vms.entries.length < maxCID - minCID
  unread : ∀ ids, s.pendingLoad = some ids → ∀ id ∈ ids, ∀ r, s.disk.get id = some r → r.id = id →
    ValidCID r.cid ∧ (∀ e, s.Present e → (s.record e).cid ≠ r.cid) ∧
      ∀ id' ∈ ids, ∀ r', s.disk.get id' = some r' → r'.id = id' → r'.cid = r.cid → id' = id

end System

/-- The records Load finds have different valid ids, and there are never as many VMs as ids. -/
def CIDsSuffice (s : System) : Event → Prop
  | .op _ (.loadDirs _) => s.DistinctOnDisk
  | .op _ (.allocate ..) | .op _ (.loadEntry ..) =>
    s.vms.entries.length + 1 < maxCID - minCID
  | _ => True

/-- No VM is moved to another id before Load is through, and one that was deleted meanwhile is not moved
when all other ids are taken. -/
def KeepsCIDs (s : System) : Event → Prop
  | .op t (.update e (.reassigned cid)) => CIDsSuffice s (.op t (.update e (.reassigned cid))) ∧
    s.loader = none ∧ (s.Present e ∨ s.vms.entries.length + 1 < maxCID - minCID)
  | ev => CIDsSuffice s ev

theorem KeepsCIDs.suffice {s : System} (h : KeepsCIDs s ev) :
    CIDsSuffice s ev := by
  unfold KeepsCIDs at h
  split at h
  · exact h.1
  · exact h

theorem VM.loaded_cid (r : VM) : r.loaded.cid = r.cid := by
  unfold VM.loaded
  split <;> rfl

section Step
variable {cfg : Config} {s s' : System} {t e : Nat} {op : Op}

theorem Inv.mem_usedCIDs (hi : Inv s) :
    cid ∈ s.usedCIDs ↔ ∃ e, s.Present e ∧ (s.record e).cid = cid := by
  rw [usedCIDs, List.mem_map]
  constructor
  · intro h
    obtain ⟨⟨id, e⟩, hmem, hcid⟩ := h
    have hget := get_eq_some_iff.2 hmem
    obtain ⟨-, rfl⟩ := hi.vms id e hget
    exact ⟨e, hget, hcid⟩
  · intro h
    obtain ⟨e, hp, hcid⟩ := h
    exact ⟨⟨_, e⟩, get_eq_some_iff.1 hp, hcid⟩

theorem Inv.present_of_effect (hi : Inv s) (hg : op.Guard cfg s t) (hp : (s.effect t op).Present e) :
    s.Present e ∨ (op.adds = true ∧ e = s.nextEntry) := by
  rcases hi.alive_of_effect hg ((hi.effect hg).vms _ _ hp).1 with ha | hadd
  · exact .inl ((hi.later hg).present e ha hp)
  · exact .inr hadd

theorem Inv.pending_of_effect (hg : op.Guard cfg s t) (hne : ∀ ids, op ≠ .loadDirs ids)
    (hp : (s.effect t op).pendingLoad = some ids) :
    ∃ ids₀, s.pendingLoad = some ids₀ ∧ ids ⊆ ids₀ := by
  have hold : s.pendingLoad = some ids → ∃ ids₀, s.pendingLoad = some ids₀ ∧ ids ⊆ ids₀ :=
    fun h => ⟨ids, h, Subset.refl ids⟩
  have htail : s.pendingLoad.map tail = some ids →
      ∃ ids₀, s.pendingLoad = some ids₀ ∧ ids ⊆ ids₀ := by
    intro h
    obtain ⟨ids₀, h₀, rfl⟩ := map_eq_some_iff.1 h
    exact ⟨ids₀, h₀, fun _ hid => mem_of_mem_tail hid⟩
  cases op with
  | loadDirs ids' => exact absurd rfl (hne ids')
  | loadSkip | loadEntry => exact htail hp
  | loaded => cases hp
  | _ => exact hold hp

theorem Inv.unread_of_effect (hi : Inv s) (hg : op.Guard cfg s t) (hp : (s.effect t op).pendingLoad = some ids)
    (hid : id ∈ ids) (hr : (s.effect t op).disk.get id = some r) : s.disk.get id = some r := by
  rcases hi.disk_effect hg hr with hold | ⟨e, ha, rfl, rfl⟩
  · exact hold
  · exact absurd hid (((hi.effect hg).pending ids hp).2 e ha)

theorem vms_length_effect (hk : CIDsSuffice s (.op t op)) (h : s.vms.entries.length < maxCID - minCID) :
    (s.effect t op).vms.entries.length < maxCID - minCID := by
  have hinsert : ∀ (id : String) (e : Nat), s.vms.entries.length + 1 < maxCID - minCID →
      (s.vms.insert id e).entries.length < maxCID - minCID := by
    intro id e hfew
    have hle := (kerase_sublist id s.vms.entries).length_le
    rw [AList.entries_insert, length_cons]
    omega
  cases op with
  | allocate id => exact hinsert id _ hk
  | loadEntry id => exact hinsert id _ hk
  | remove id => exact (kerase_sublist id s.vms.entries).length_le.trans_lt h
  | _ => exact h

theorem System.DistinctCIDs.new_cid (h : s.DistinctCIDs) (hi : Inv s) (hg : op.Guard cfg s t)
    (hadd : op.adds = true) : ValidCID ((s.effect t op).record s.nextEntry).cid ∧
      ∀ e, s.Present e → (s.record e).cid ≠ ((s.effect t op).record s.nextEntry).cid := by
  rcases Inv.record_added (s := s) (t := t) op hadd with ⟨id, m, cid, spec, rfl, hrec⟩ |
    ⟨id, r, rfl, hrec⟩
  · obtain ⟨-, -, -, -, rfl⟩ := hg
    obtain ⟨hfree, hvalid⟩ := s.freeCIDFrom_free cfg.cidBase h.few
    rw [hrec]
    refine ⟨hvalid, fun e hp hcid => hfree ?_⟩
    exact hi.mem_usedCIDs.2 ⟨e, hp, hcid⟩
  · obtain ⟨-, -, hdisk, hid, ⟨rest, hpend⟩, -⟩ := hg
    obtain ⟨hvalid, hother, -⟩ := h.unread _ hpend id mem_cons_self r hdisk hid
    rw [hrec, r.loaded_cid]
    exact ⟨hvalid, hother⟩

theorem System.DistinctCIDs.reassigned (h : s.DistinctCIDs) (hi : Inv s)
    (hg : (Op.update e (.reassigned cid)).Guard cfg s t) (hl : s.loader = none) :
    (s.effect t (.update e (.reassigned cid))).DistinctCIDs := by
  obtain ⟨hfree, hvalid⟩ := s.freeCIDFrom_free ((s.record e).cid + 1) h.few
  obtain rfl : cid = s.freeCIDFrom ((s.record e).cid + 1) := hg.2.2.2
  have hself : ((s.effect t (.update e (.reassigned (s.freeCIDFrom ((s.record e).cid + 1))))).record
      e).cid = s.freeCIDFrom ((s.record e).cid + 1) := by
    rw [s.update_record]
    rfl
  have hother : ∀ e', s.Present e' → e' ≠ e → ((s.effect t (.update e (.reassigned
      (s.freeCIDFrom ((s.record e).cid + 1))))).record e').cid = (s.record e').cid := by
    intro e' hp hne
    refine hi.cid_effect hg (hi.vms _ _ hp).1 fun cid hop => ?_
    cases hop
    exact hne rfl
  have hpresent : ∀ e', (s.effect t (.update e (.reassigned
      (s.freeCIDFrom ((s.record e).cid + 1))))).Present e' → s.Present e' := fun e' hp =>
    (hi.present_of_effect hg hp).resolve_right fun hx => absurd hx.1 nofun
  have hapart : ∀ e', s.Present e' → (s.record e').cid ≠ s.freeCIDFrom ((s.record e).cid + 1) :=
    fun e' hp heq => hfree (hi.mem_usedCIDs.2 ⟨e', hp, heq⟩)
  refine ⟨fun e' hp => ?_, fun e₁ e₂ hp₁ hp₂ heq => ?_, h.few, fun ids hpend => ?_⟩
  · by_cases he : e' = e
    · rw [he, hself]
      exact hvalid
    · rw [hother e' (hpresent e' hp) he]
      exact h.valid e' (hpresent e' hp)
  · by_cases h₁ : e₁ = e
    · by_cases h₂ : e₂ = e
      · rw [h₁, h₂]
      · rw [h₁, hself, hother e₂ (hpresent e₂ hp₂) h₂] at heq
        exact absurd heq.symm (hapart e₂ (hpresent e₂ hp₂))
    · by_cases h₂ : e₂ = e
      · rw [h₂, hself, hother e₁ (hpresent e₁ hp₁) h₁] at heq
        exact absurd heq (hapart e₁ (hpresent e₁ hp₁))
      · rw [hother e₁ (hpresent e₁ hp₁) h₁, hother e₂ (hpresent e₂ hp₂) h₂] at heq
        exact h.distinct e₁ e₂ (hpresent e₁ hp₁) (hpresent e₂ hp₂) heq
  · have hnone : s.pendingLoad = some ids := hpend
    rw [(hi.loader hl).1] at hnone
    cases hnone

theorem System.DistinctCIDs.new_unread (h : s.DistinctCIDs) (hi : Inv s) (hg : op.Guard cfg s t) (hadd : op.adds = true)
    (hpend : (s.effect t op).pendingLoad = some ids) (hid : id ∈ ids) (hr : s.disk.get id = some r) (hrid : r.id = id) :
    ((s.effect t op).record s.nextEntry).cid ≠ r.cid := by
  rcases Inv.record_added (s := s) (t := t) op hadd with ⟨id₀, m, cid, spec, rfl, hrec⟩ |
    ⟨id₀, r₀, rfl, hrec⟩
  · have hnone := (hi.loader (hi.serving hg.1)).1
    have hsome : s.pendingLoad = some ids := hpend
    rw [hnone] at hsome
    cases hsome
  · obtain ⟨-, -, hdisk, hid₀, ⟨rest, hload⟩, -⟩ := hg
    have hrest : ids = rest := by
      have htail : s.pendingLoad.map tail = some ids := hpend
      rw [hload] at htail
      exact (some.inj htail).symm
    rw [hrec, r₀.loaded_cid]
    intro heq
    have hin : id ∈ id₀ :: rest := mem_cons_of_mem id₀ (hrest ▸ hid)
    have hsame := (h.unread _ hload id hin r hr hrid).2.2 id₀ mem_cons_self r₀ hdisk hid₀ heq
    have hnodup := (nodup_cons.1 (hi.pending _ hload).1).1
    rw [hsame, ← hrest] at hnodup
    exact hnodup hid

theorem System.DistinctCIDs.unread_effect (h : s.DistinctCIDs) (hi : Inv s) (hg : op.Guard cfg s t)
    (hk : KeepsCIDs s (.op t op)) (hcid : ∀ e, s.Present e → ((s.effect t op).record e).cid = (s.record e).cid)
    (hpend : (s.effect t op).pendingLoad = some ids) (hid : id ∈ ids) (hr : (s.effect t op).disk.get id = some r)
    (hrid : r.id = id) : ValidCID r.cid ∧
      (∀ e, (s.effect t op).Present e → ((s.effect t op).record e).cid ≠ r.cid) ∧
      ∀ id' ∈ ids, ∀ r', (s.effect t op).disk.get id' = some r' → r'.id = id' → r'.cid = r.cid →
        id' = id := by
  have hold := hi.unread_of_effect hg hpend hid hr
  by_cases hdirs : ∃ ids, op = .loadDirs ids
  · obtain ⟨ids', rfl⟩ := hdirs
    obtain ⟨hl, hnone, -⟩ := hg
    obtain ⟨hvalid, hdistinct⟩ := hk.suffice id r hold hrid
    refine ⟨hvalid, fun e hp => ?_, fun id' _ r' hr' hrid' heq => hdistinct id' r' hr' hrid' heq⟩
    have ha : s.Alive e := (hi.vms _ _ (show s.Present e from hp)).1
    exact absurd ha (hi.unlisted (by rw [hl]; simp) hnone e)
  · obtain ⟨ids₀, hpend₀, hsub⟩ := Inv.pending_of_effect hg (fun ids hop => hdirs ⟨ids, hop⟩) hpend
    obtain ⟨hvalid, hother, hdistinct⟩ := h.unread ids₀ hpend₀ id (hsub hid) r hold hrid
    refine ⟨hvalid, fun e hp => ?_, fun id' hid' r' hr' hrid' heq =>
      hdistinct id' (hsub hid') r' (hi.unread_of_effect hg hpend hid' hr') hrid' heq⟩
    rcases hi.present_of_effect hg hp with hwas | ⟨hadd, rfl⟩
    · rw [hcid e hwas]
      exact hother e hwas
    · exact h.new_unread hi hg hadd hpend hid hold hrid

theorem System.DistinctCIDs.effect (h : s.DistinctCIDs) (hi : Inv s) (hg : op.Guard cfg s t)
    (hk : KeepsCIDs s (.op t op)) : (s.effect t op).DistinctCIDs := by
  by_cases hmove : ∃ e cid, op = .update e (.reassigned cid)
  · obtain ⟨e, cid, rfl⟩ := hmove
    exact h.reassigned hi hg hk.2.1
  have hcid : ∀ e, s.Present e → ((s.effect t op).record e).cid = (s.record e).cid := fun e hp =>
    hi.cid_effect hg (hi.vms _ _ hp).1 fun cid hop => hmove ⟨e, cid, hop⟩
  have hnew := fun hadd => h.new_cid hi hg hadd
  refine ⟨fun e hp => ?_, fun e e' hp hp' heq => ?_, vms_length_effect hk.suffice h.few,
    fun ids hpend id hid r hr hrid => h.unread_effect hi hg hk hcid hpend hid hr hrid⟩
  · rcases hi.present_of_effect hg hp with hold | ⟨hadd, rfl⟩
    · rw [hcid e hold]
      exact h.valid e hold
    · exact (hnew hadd).1
  · rcases hi.present_of_effect hg hp with hold | ⟨hadd, rfl⟩
    · rcases hi.present_of_effect hg hp' with hold' | ⟨hadd, rfl⟩
      · rw [hcid e hold, hcid e' hold'] at heq
        exact h.distinct e e' hold hold' heq
      · rw [hcid e hold] at heq
        exact absurd heq ((hnew hadd).2 e hold)
    · rcases hi.present_of_effect hg hp' with hold' | ⟨-, rfl⟩
      · rw [hcid e' hold'] at heq
        exact absurd heq.symm ((hnew hadd).2 e' hold')
      · rfl

theorem System.DistinctCIDs.initial : ({} : System).DistinctCIDs where
  valid _ hp := absurd hp get_empty_ne
  distinct _ _ hp := absurd hp get_empty_ne
  few := by decide
  unread := nofun

theorem System.DistinctCIDs.outside (h : s.DistinctCIDs) {x : Outside} {n : Nat}
    (hx : s.outside n x = some s') : DistinctCIDs (s'.noting x s) := by
  have hfew := h.few
  rcases outside_split hx with _ | _
  · exact ⟨fun _ hp => absurd hp get_empty_ne, fun _ _ hp => absurd hp get_empty_ne, Nat.zero_lt_of_lt hfew, nofun⟩
  · exact { h with }

theorem Runs.distinctCIDs {pool : Pool} (h : Runs cfg KeepsCIDs pool) :
    pool.shared.DistinctCIDs :=
  Runs.invariant (I := DistinctCIDs) .initial (fun _ _ _ hi hI hg hk => hI.effect hi hg hk)
    (fun _ _ _ _ _ hI _ hx => hI.outside hx) h

end Step

/-- In every run whose steps all meet `KeepsCIDs`, the VMs of the service have different valid ids, and a
VM is never moved to the id it has. The search of the source, in 32 bits, finds the first free id for every
set of used ones and every start, and it is the search of the service. -/
theorem context_ids_distinct (cfg : Config) {pool : Pool}
    (h : Runs cfg KeepsCIDs pool) : ((∀ e, pool.shared.Present e → ValidCID (pool.shared.record e).cid) ∧
      (∀ e e', pool.shared.Present e → pool.shared.Present e' →
        (pool.shared.record e).cid = (pool.shared.record e').cid → e = e') ∧
      ∀ m t e next pool', (service cfg).step pool m = some (.op t (.update e (.reassigned next)), pool') →
        KeepsCIDs pool.shared (.op t (.update e (.reassigned next))) →
        (pool'.shared.record e).cid = next ∧ next ≠ (pool.shared.record e).cid) ∧
    ∀ (start : UInt32) (rounds : Nat), maxCID - minCID < rounds →
      (∀ used : UInt32 → Bool, ∃ cid, freeCIDFrom used start rounds = some cid ∧
        FirstFree (fun c => used (UInt32.ofNat c) = true) (cidReached start.toNat)
          (maxCID - minCID) maxCID cid.toNat) ∧
      ∀ s : System, ∃ cid, freeCIDFrom (fun c => s.usedCIDs.contains c.toNat) start rounds = some cid ∧
        cid.toNat = s.freeCIDFrom start.toNat := by
  have hd := h.distinctCIDs
  refine ⟨⟨hd.valid, hd.distinct, fun m t e next pool' hm hk => ?_⟩,
    fun start rounds hr => ⟨fun used => freeCIDFrom_first used start hr, fun s => s.freeCIDFrom_source start hr⟩⟩
  obtain ⟨hg, heq⟩ := StepOf.of_op (Runs.step h hm)
  constructor
  · rw [heq, update_record]
    rfl
  · have hnext : next = pool.shared.freeCIDFrom ((pool.shared.record e).cid + 1) := hg.2.2.2
    rw [hnext]
    rcases hk.2.2 with hp | hfew
    · intro hsame
      have hfree := (pool.shared.freeCIDFrom_free ((pool.shared.record e).cid + 1) hd.few).1
      rw [hsame] at hfree
      exact hfree (h.inv.mem_usedCIDs.2 ⟨e, hp, rfl⟩)
    · exact pool.shared.freeCIDFrom_succ_ne _ hfew

instance (cid : Nat) : Decidable (ValidCID cid) := inferInstanceAs (Decidable (_ ∧ _))

instance (s : System) (ev : Event) : Decidable (CIDsSuffice s ev) := by
  unfold CIDsSuffice DistinctOnDisk
  split <;> infer_instance

instance (s : System) (ev : Event) : Decidable (KeepsCIDs s ev) := by
  unfold KeepsCIDs
  split <;> infer_instance

namespace Sample

/-- Two installing VMs with the ids 3 and 4 when vm-manager is restarted; Load runs in goroutine 6. -/
def installsTwo : List Move :=
  withNetwork ++ creates 2 { name := "one", network := "a" } "01" ++ oks 2 2 ++
    creates 4 { name := "two", network := "a" } "02" ++ oks 4 2 ++ [.env .crash, .env .start]

def movesCID : List Move :=
  [.env (.exit 0 ⟨0, ""⟩), .go 7 (.exited {})] ++ oks 7 11 ++ [.go 7 (.err "unable to set guest cid")] ++
    oks 7 2

end Sample
open Sample

theorem context_ids_distinct_moved :
    ∃ pool, Runs config KeepsCIDs pool ∧ (pool.shared.Present 2 ∧ pool.shared.Present 3 ∧
      (pool.shared.record 2).cid = 5 ∧ (pool.shared.record 3).cid = 4) ∧ ValidCID (pool.shared.record 2).cid :=
  Runs.witness (installsTwo ++ oks 6 35 ++ movesCID) (by decide +kernel)
    fun _ hrun hp => (context_ids_distinct config hrun).1.1 2 hp.1

theorem context_ids_clash :
    ∃ pool, Runs config CIDsSuffice pool ∧ pool.shared.Present 2 ∧ pool.shared.Present 3 ∧
      (pool.shared.record 2).cid = 4 ∧ (pool.shared.record 3).cid = 4 :=
  Runs.sample (installsTwo ++ oks 6 19 ++
    movesCID ++ oks 6 2) (by decide +kernel)

end VmManager.Vm
