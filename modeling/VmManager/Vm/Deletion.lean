import VmManager.Vm.Networks
import VmManager.Vm.Undo

/-! What Delete leaves on disk. Once a record is deleting and its process is gone nothing but a metadata
request writes to the directory of the VM. -/
namespace VmManager.Vm
open Encoding Attest Interleaving List Option Vm.System
variable {cfg : Config} {s s' : System} {t t' e n : Nat} {op : Op} {id : String} {x : Outside}

theorem System.dirExists_cases (h : (s.effect t op).dirExists id = true) :
    s.dirExists id = true ∨ (∃ e u, op.writes s e = some u ∧ (s.record e).id = id) ∨
      (∃ machineID cid spec, op = .allocate id machineID cid spec) ∨ op = .host (.writeFile id) ∨
      (∃ data, op = .host (.writeUserData id data)) ∨ ∃ data, op = .host (.writeReport id data) := by
  by_cases hwrites : ∃ e u, op.writes s e = some u ∧ (s.record e).id = id
  · exact .inr (.inl hwrites)
  by_cases habout : op.about = some id
  · cases op with
    | allocate id' machineID cid spec =>
      cases habout
      exact .inr (.inr (.inl ⟨machineID, cid, spec, rfl⟩))
    | removeDir | undoAllocate =>
      cases habout
      simp [dirExists, effect, apply, GoMap.get_erase] at h
    | host o =>
      cases o with
      | writeFile =>
        cases habout
        exact .inr (.inr (.inr (.inl rfl)))
      | writeUserData id' data =>
        cases habout
        exact .inr (.inr (.inr (.inr (.inl ⟨data, rfl⟩))))
      | writeReport id' data =>
        cases habout
        exact .inr (.inr (.inr (.inr (.inr ⟨data, rfl⟩))))
      | _ => exact .inl h
    | remove | loadEntry => exact .inl h
    | _ => cases habout
  · have hkept := belongings_frame (t := t)
      (fun e u hw hid => hwrites ⟨e, u, hw, hid⟩) habout
    exact .inl (dirExists_congr hkept ▸ h)

/-- Metadata requests do not write to the directory of a VM that is being deleted, Delete finds no Create
before the start of its installer, and directories can be removed. -/
def Op.LeavesNothing (s : System) : Op → Prop
  | .update e .nonceIssued | .update e (.quoteRecorded ..) => (s.record e).state ≠ .deleting
  | .host (.writeReport id _) =>
      ∀ e, s.Present e → (s.record e).id = id → (s.record e).state ≠ .deleting
  | .update e .deleting => (s.entries e).owner = none
  | .host (.removeFailed _) => False
  | _ => True

def DeletesCleanly (s : System) : Event → Prop
  | .op _ o => o.FreshId s ∧ o.LeavesNothing s
  | _ => True

structure Spent (s : System) (e : Nat) : Prop where
  alive : s.Alive e
  deleting : (s.record e).state = .deleting
  proc : (s.entries e).proc = none

structure DeletesLate (s : System) : Prop where
  distinct : s.Distinct
  serving : ∀ e, s.Alive e → (s.record e).state = .deleting → s.serving = true
  owner : ∀ e, s.Alive e → (s.record e).state = .deleting → (s.entries e).owner = none

namespace Spent
variable {u : Update}

theorem not_written (h : Spent s e) (hd : DeletesLate s) (hi : Inv s) (hg : op.Guard cfg s t)
    (hk : op.LeavesNothing s) : op.writes s e = none := by
  have howner := hd.owner e h.alive h.deleting
  have hready : ∀ phase, ¬ s.Ready t e phase := by
    intro phase hr
    cases phase with
    | install => cases hr.symm.trans howner
    | boot => exact hr.2.2 h.deleting
  have hsup : ∀ p, ¬ s.Supervises t e p := fun p hp => by cases hp.1.symm.trans h.proc
  by_contra hw
  obtain ⟨u, hw⟩ := ne_none_iff_exists'.1 hw
  rcases Op.writes_cases hw with rfl | ⟨phase, hs, rfl, -⟩ | ⟨p, exit, timeout, c, rfl, -⟩
  · obtain ⟨-, hg⟩ := hg
    cases u with
    | volume => cases hg.2.symm.trans howner
    | leased => cases hg.2.1.symm.trans howner
    | reassigned =>
      obtain ⟨-, ⟨phase, hr⟩, -⟩ := hg
      exact hready phase hr
    | failed => exact hready .boot hg.2
    | handoffClosed => cases hg.2.1.symm.trans h.deleting
    | stopping => exact hg.1 h.proc
    | overdue =>
      obtain ⟨⟨p, hp, -⟩, -⟩ := hg
      exact hsup p hp
    | notified =>
      obtain ⟨p, hp, -⟩ := hg
      exact hsup p hp
    | deleting => exact hg.2.1 h.deleting
    | nonceIssued | quoteRecorded => exact hk h.deleting
    | reattachFailed =>
      have hlive := ((hi.entry e).loading hg.2).2.2.2.2
      rw [h.deleting] at hlive
      cases hlive
    | resaved =>
      have hserv := hi.serving (hd.serving e h.alive h.deleting)
      cases hserv.symm.trans hg.1
    | installing | booting | exited => exact hg
  · obtain ⟨-, -, -, -, hr, -⟩ := hg
    exact hready phase hr
  · exact hsup p hg.2.1

theorem effect (h : Spent s e) (hd : DeletesLate s) (hi : Inv s) (hg : op.Guard cfg s t)
    (hk : op.LeavesNothing s) : Spent (s.effect t op) e := by
  have hw := h.not_written hd hi hg hk
  have hrec : (s.effect t op).record e = s.record e := by
    rw [hi.record_effect hg fun _ => (hi.alive_lt h.alive).ne, hw]
  refine ⟨hi.alive_effect hg h.alive, hrec ▸ h.deleting, ?_⟩
  by_contra hp
  rcases hi.proc_cases hg hp with hold | ⟨phase, hs, rfl⟩ | ⟨phase, hs, rfl⟩
  · exact hold h.proc
  · rw [Op.writes, if_pos rfl] at hw
    cases hw
  · have hlive := ((hi.entry e).loading hg.2.1).2.2.2.2
    rw [h.deleting] at hlive
    cases hlive

theorem dir_stays (h : ∀ e, s.Alive e → (s.record e).id = id → Spent s e) (hd : DeletesLate s) (hi : Inv s)
    (hg : op.Guard cfg s t) (hk : op.LeavesNothing s) (hne : ∀ machineID cid spec, op ≠ .allocate id machineID cid spec)
    (hx : (s.effect t op).dirExists id = true) : s.dirExists id = true := by
  have hfile : ¬ ∃ e, (s.record e).id = id ∧ s.Alive e ∧ (s.entries e).opMu = some t ∧
      (s.entries e).owner = some t := by
    rintro ⟨e, hid, ha, -, ho⟩
    cases ho.symm.trans (hd.owner e ha (h e ha hid).deleting)
  rcases dirExists_cases hx with hold | ⟨e, u, hw, hid⟩ | ⟨m, cid, spec, rfl⟩ | rfl |
    ⟨data, rfl⟩ | ⟨data, rfl⟩
  · exact hold
  · have ha : s.Alive e := by
      rcases Op.writes_cases hw with rfl | ⟨phase, hs, rfl, -⟩ | ⟨p, exit, timeout, c, rfl, -⟩
      · exact hg.1
      · exact hg.2.1
      · exact hg.1
    cases ((h e ha hid).not_written hd hi hg hk).symm.trans hw
  · exact absurd rfl (hne m cid spec)
  · exact absurd hg hfile
  · exact absurd hg hfile
  · obtain ⟨-, e, hid, hp⟩ := hg
    exact absurd (h e (hi.vms _ _ hp).1 hid).deleting (hk e hp hid)

end Spent

namespace DeletesLate

theorem not_added (hadd : op.adds = true) :
    ((s.effect t op).record s.nextEntry).state ≠ .deleting := by
  rcases Inv.record_added (s := s) (t := t) op hadd with ⟨_, _, _, _, rfl, hr⟩ | ⟨id, r, rfl, hr⟩
  · rw [hr]
    nofun
  · rw [hr]
    exact (VM.loaded_state r).1

theorem effect (h : DeletesLate s) (hi : Inv s) (hg : op.Guard cfg s t)
    (hk : DeletesCleanly s (.op t op)) : DeletesLate (s.effect t op) := by
  have hold : ∀ e, (s.effect t op).Alive e → ((s.effect t op).record e).state = .deleting →
      s.Alive e ∧ ((s.record e).state = .deleting ∨ op = .update e .deleting) := by
    intro e ha hd
    rcases hi.alive_of_effect hg ha with hold | ⟨hadd, rfl⟩
    · exact ⟨hold, hi.deleting_of_effect hg hold hd⟩
    · exact absurd hd (not_added hadd)
  refine ⟨h.distinct.effect hi hg hk.1, fun e ha hd => ?_, fun e ha hd => ?_⟩
  · refine Inv.serving_mono s t op ?_
    obtain ⟨ha, hd | rfl⟩ := hold e ha hd
    · exact h.serving e ha hd
    · exact hg.2.2.2
  · obtain ⟨ha, hd⟩ := hold e ha hd
    have ho : (s.entries e).owner = none := by
      rcases hd with hd | rfl
      · exact h.owner e ha hd
      · exact hk.2
    rcases hi.owner_cases hg e with hsame | ⟨hnone, -⟩ | ⟨hnone, -⟩ | ⟨rfl, -⟩
    · exact hsame.trans ho
    · exact hnone
    · exact hnone
    · exact absurd ha hi.not_alive_next

theorem outside (h : DeletesLate s) (hx : s.outside n x = some s') :
    DeletesLate (s'.noting x s) := by
  have hdist := h.distinct.outside hx
  rcases outside_split hx with _ | _
  · exact ⟨hdist, fun _ ha => absurd rfl ha, fun _ ha => absurd rfl ha⟩
  · exact ⟨hdist, h.serving, h.owner⟩

theorem initial : DeletesLate {} := ⟨.initial, fun _ ha => absurd rfl ha, fun _ ha => absurd rfl ha⟩

end DeletesLate

def Happening.allocates (id : String) : Happening → Bool
  | .did _ (.allocate id' _ _ _) _ => id' == id
  | _ => false

def Happening.deletes (id : String) : Happening → Bool
  | .did _ (.deleteReturns _ id') _ => id' == id
  | _ => false

/-- A Delete of `id` has come to its end, and no Create has taken the id since. -/
def System.Deleted (s : System) (id : String) : Prop := ∃ x ∈ since (Happening.allocates id) s.hist, x.deletes id = true

instance : Decidable (s.Deleted id) := inferInstanceAs (Decidable (∃ x ∈ _, _))

theorem Books.wiped_enter {b : Books} (h : b.wiped = true) (o : Op) : (b.enter o).wiped = true := by
  cases o with
  | net o => cases o <;> exact h
  | host o => cases o <;> exact h
  | update e u => cases u <;> exact h
  | removeDir => rfl
  | _ => exact h

namespace System

theorem opMu_cases (hi : Inv s) (hg : op.Guard cfg s t) (h : ((s.effect t op).entries e).opMu = some t') :
    (s.entries e).opMu = some t' ∨ (op = .lock e ∧ t' = t) := by
  rcases hi.opMu_effect hg e with ⟨hop, hm⟩ | ⟨-, hm⟩ | hm
  · exact .inr ⟨hop, some.inj (h.symm.trans hm)⟩
  · cases h.symm.trans hm
  · exact .inl (hm.symm.trans h)

theorem opMu_kept (hi : Inv s) (hg : op.Guard cfg s t) (h : (s.entries e).opMu = some t') :
    ((s.effect t op).entries e).opMu = some t' ∨ (op = .unlock e ∧ t' = t) := by
  rcases hi.opMu_effect hg e with ⟨rfl, -⟩ | ⟨rfl, -⟩ | hm
  · cases h.symm.trans hg.1
  · exact .inr ⟨rfl, some.inj (h.symm.trans hg.1)⟩
  · exact .inl (hm.trans h)

theorem wiped_of_deeds (h : .removeDir id ∈ s.deeds t) : (s.books t).wiped = true := by
  have hrun : ∀ l : List Op, .removeDir id ∈ l →
      (l.foldr (fun o b => b.enter o) ({} : Books)).wiped = true := by
    intro l hl
    induction l with
    | nil => cases hl
    | cons o l ih =>
      rcases mem_cons.1 hl with rfl | hl
      · rfl
      · exact Books.wiped_enter (ih hl) o
  exact hrun _ h

end System

structure Wiped (s : System) : Prop where
  late : DeletesLate s
  tried : ∀ t id, .host (.removeFailed id) ∉ s.deeds t
  going : ∀ t e, s.Alive e → (s.record e).state = .deleting → (s.entries e).opMu = some t →
    .removeDir (s.record e).id ∈ s.deeds t → (s.entries e).proc = none ∧ s.dirExists (s.record e).id = false
  gone : ∀ id, s.Deleted id → s.dirExists id = false ∧ ∀ e, s.Alive e → (s.record e).id = id → Spent s e

namespace Wiped

theorem going_effect (h : Wiped s) (hi : Inv s) (hg : op.Guard cfg s t) (hb : (s.books t).Allows op)
    (hk : DeletesCleanly s (.op t op)) (ha : (s.effect t op).Alive e)
    (hd : ((s.effect t op).record e).state = .deleting) (hm : ((s.effect t op).entries e).opMu = some t')
    (hr : .removeDir ((s.effect t op).record e).id ∈ (s.effect t op).deeds t') :
    ((s.effect t op).entries e).proc = none ∧
      (s.effect t op).dirExists ((s.effect t op).record e).id = false := by
  have halive : s.Alive e := by
    rcases hi.alive_of_effect hg ha with hold | ⟨hadd, rfl⟩
    · exact hold
    · exact absurd hd (DeletesLate.not_added hadd)
  rw [(hi.ident hg halive).1] at hr ⊢
  by_cases hop : t = t' ∧ op = .removeDir (s.record e).id
  · obtain ⟨rfl, rfl⟩ := hop
    obtain ⟨e', hid, ⟨hmu, ha', hp, -⟩, -⟩ := hg
    cases h.late.distinct e' e ha' halive hid
    refine ⟨hp, ?_⟩
    simp [effect, apply, dirExists, GoMap.get_erase]
  have hold : .removeDir (s.record e).id ∈ s.deeds t' := by
    rw [s.deeds_effect] at hr
    split at hr
    · rename_i ht
      rcases mem_cons.1 hr with heq | hr
      · exact absurd ⟨ht.1, heq.symm⟩ hop
      · exact hr
    · exact hr
  have hwiped := wiped_of_deeds hold
  have hmu : (s.entries e).opMu = some t' := by
    rcases opMu_cases hi hg hm with hmu | ⟨rfl, rfl⟩
    · exact hmu
    · cases hwiped.symm.trans hb
  have hdel : (s.record e).state = .deleting := by
    rcases hi.deleting_of_effect hg halive hd with hdel | rfl
    · exact hdel
    · have ht : t' = t := some.inj (hmu.symm.trans hg.2.1)
      subst ht
      cases hwiped.symm.trans hb.1
  obtain ⟨hp, hdir⟩ := h.going t' e halive hdel hmu hold
  have hspent : Spent s e := ⟨halive, hdel, hp⟩
  refine ⟨(hspent.effect h.late hi hg hk.2).proc, ?_⟩
  by_contra hx
  have hback : s.dirExists (s.record e).id = true := Spent.dir_stays
    (fun e' ha' hid => h.late.distinct e' e ha' halive hid ▸ hspent) h.late hi hg hk.2
    (fun m cid spec heq => by
      subst heq
      exact hk.1 e (hi.alive_lt halive) halive rfl) (by simpa using hx)
  cases hback.symm.trans hdir

theorem gone_effect (h : Wiped s) (hi : Inv s) (hg : op.Guard cfg s t) (hcur : s.acts t = s.deeds t)
    (hk : DeletesCleanly s (.op t op)) (hd : (s.effect t op).Deleted id) : (s.effect t op).dirExists id = false ∧
      ∀ e, (s.effect t op).Alive e → ((s.effect t op).record e).id = id →
        Spent (s.effect t op) e := by
  obtain ⟨x, hx, hdel⟩ := hd
  change x ∈ since _ (s.log t op :: s.hist) at hx
  have hne : ∀ machineID cid spec, op ≠ .allocate id machineID cid spec := by
    intro machineID cid spec heq
    have hcut : (s.log t op).allocates id = true := by
      rw [heq]
      exact beq_self_eq_true id
    rw [since_cons_of_pos hcut] at hx
    cases hx
  have hcut : (s.log t op).allocates id = false := by
    cases op with
    | allocate id' m cid spec =>
      refine beq_eq_false_iff_ne.2 fun heq => ?_
      subst heq
      exact hne m cid spec rfl
    | _ => rfl
  rw [since_cons_of_neg hcut] at hx
  have hstate : s.dirExists id = false ∧ ∀ e, s.Alive e → (s.record e).id = id → Spent s e := by
    rcases mem_cons.1 hx with rfl | hx
    · cases op with
      | deleteReturns e id' =>
        cases beq_iff_eq.1 hdel
        obtain ⟨⟨hmu, ha, hp, -⟩, hst, rfl, hdid, -⟩ := hg
        rw [hcur] at hdid
        have hrm := hdid.resolve_right (h.tried t _)
        refine ⟨(h.going t e ha hst hmu hrm).2, fun e' ha' hid => ?_⟩
        cases h.late.distinct e' e ha' ha hid
        exact ⟨ha, hst, hp⟩
      | _ => cases hdel
    · exact h.gone id ⟨x, hx, hdel⟩
  obtain ⟨hdir, hspent⟩ := hstate
  constructor
  · by_contra hn
    have hback := Spent.dir_stays hspent h.late hi hg hk.2 hne (by simpa using hn)
    cases hback.symm.trans hdir
  · intro e ha hid
    rcases hi.alive_of_effect hg ha with hold | ⟨hadd, rfl⟩
    · rw [(hi.ident hg hold).1] at hid
      exact (hspent e hold hid).effect h.late hi hg hk.2
    · rcases Inv.record_added (s := s) (t := t) op hadd with ⟨id', m, cid, spec, rfl, hr⟩ | ⟨id', r, rfl, hr⟩
      · rw [hr] at hid
        exact absurd (congrArg (fun x => Op.allocate x m cid spec) hid) (hne m cid spec)
      · obtain ⟨-, -, hdisk, hkey, -⟩ := hg
        rw [hr, VM.loaded_id, hkey] at hid
        subst hid
        simp [dirExists, hdisk] at hdir

theorem effect (h : Wiped s) (hi : Inv s) (hg : op.Guard cfg s t) (hb : (s.books t).Allows op)
    (hcur : s.acts t = s.deeds t) (hk : DeletesCleanly s (.op t op)) : Wiped (s.effect t op) where
  late := h.late.effect hi hg hk
  tried t' id hx := by
    rw [s.deeds_effect] at hx
    split at hx
    · rcases mem_cons.1 hx with rfl | hx
      · exact hk.2
      · exact h.tried t' id hx
    · exact h.tried t' id hx
  going _ _ ha hd hm hr := h.going_effect hi hg hb hk ha hd hm hr
  gone _ hd := h.gone_effect hi hg hcur hk hd

theorem outside (h : Wiped s) (hx : s.outside n x = some s') :
    Wiped (s'.noting x s) := by
  have hlate := h.late.outside hx
  have hdel : ∀ id, Deleted (s'.noting x s) id → s.Deleted id := by
    rintro id ⟨y, hy, hd⟩
    rw [since_cons_of_neg rfl] at hy
    rcases mem_cons.1 hy with rfl | hy
    · cases hd
    · exact ⟨y, hy, hd⟩
  have hdeeds := s.deeds_outside (x := x) s'
  rcases outside_split hx with _ | ⟨hne⟩
  · exact ⟨hlate, fun _ _ => not_mem_nil, fun _ _ ha => absurd rfl ha,
      fun id hd => ⟨(h.gone id (hdel id hd)).1, fun _ ha => absurd rfl ha⟩⟩
  · refine ⟨hlate, fun t id => ?_, fun t e ha hd hm hr => ?_, fun id hd => ?_⟩
    · rw [hdeeds hne]
      exact h.tried t id
    · rw [hdeeds hne] at hr
      exact h.going t e ha hd hm hr
    · refine (h.gone id (hdel id hd)).imp_right fun hspent e ha hid => ?_
      obtain ⟨halive, hstate, hmu⟩ := hspent e ha hid
      exact ⟨halive, hstate, hmu⟩

theorem initial : Wiped {} :=
  ⟨.initial, fun _ _ => not_mem_nil, fun _ _ ha => absurd rfl ha,
    fun _ hd => absurd hd fun ⟨_, hx, _⟩ => not_mem_nil hx⟩

end Wiped

theorem delete_leaves_no_directory (cfg : Config) {pool : Pool}
    (h : Runs cfg DeletesCleanly pool) (hd : pool.shared.Deleted id) :
    pool.shared.dirExists id = false := by
  have hwiped : Wiped pool.shared :=
    Runs.invariant (I := Wiped) .initial
      (fun _ t o hi hI hg hk => hI.effect hi hg hk.1 (hk.2.1 t o rfl) hk.2.2)
      (fun _ _ _ _ _ hI _ hx => hI.outside hx) h.current.booked
  exact (hwiped.gone id hd).1

instance : Decidable (op.LeavesNothing s) := by
  unfold Op.LeavesNothing
  split
  on_goal 3 =>
    rename_i id _
    exact decidable_of_iff (∀ e, s.vms.get id = some e → (s.record e).id = id → (s.record e).state ≠ .deleting)
      ⟨fun h e hp hid => h e (hid ▸ hp) hid, fun h e hget hid => h e (show s.vms.get _ = _ from hid ▸ hget) hid⟩
  all_goals infer_instance

instance : ∀ ev, Decidable (DeletesCleanly s ev)
  | .op .. | .call _ | .env _ => by delta DeletesCleanly; infer_instance

namespace Sample

def askedLate : List Move :=
  withNetwork ++ creates 2 { name := "one", network := "a" } "01" ++ oks 2 2 ++
    [.env (.exit 0 ⟨1, ""⟩), .go 3 (.exited {})] ++ oks 3 5 ++
    [.call (.nonce 0 guest), .go 4 (.pick 0), .go 4 (.text [])]

end Sample
open Sample

theorem delete_leaves_no_directory_after_nonce :
    ∃ pool, Runs config DeletesCleanly pool ∧ pool.shared.Deleted "01" ∧
      pool.shared.dirExists "01" = false :=
  Runs.witness (askedLate ++ oks 4 2 ++ [.call (.delete "01")] ++
    oks 5 18) (by decide +kernel) fun _ hrun hd => delete_leaves_no_directory config hrun hd

theorem delete_leaves_directory :
    ∃ pool, Runs config (fun _ _ => True) pool ∧ pool.shared.Deleted "01" ∧
      (pool.shared.deeds 4).head?.any Op.ends = true ∧ (pool.shared.deeds 5).head?.any Op.ends = true ∧
      pool.shared.dirExists "01" = true ∧ (pool.shared.disk.get "01").isSome = true :=
  Runs.sample (askedLate ++ [.call (.delete "01")] ++ oks 5 9 ++ oks 4 2 ++
    oks 5 9) (by decide +kernel)

end VmManager.Vm
