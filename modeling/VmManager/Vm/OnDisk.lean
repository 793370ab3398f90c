import VmManager.Vm.ContextIds
import VmManager.Vm.Release
import VmManager.Vm.Shutdown

/-! The record of a VM on disk is the one in memory. Every critical section that changes a record also
writes it, but for two: Create does not write the record when it has the volume, and Load does not when it
gives up a VM, which it makes up for before it goes on to the next. -/
namespace VmManager.Vm
open Encoding Interleaving Vm.System
variable {cfg : Config} {s s' : System} {t e : Nat} {op : Op}

/-- The disk takes every write, and Create draws an id that no VM of the running service has had. -/
def WritesThrough (s : System) : Event → Prop
  | .env (.disk writable) => writable = true
  | .op _ o => o.FreshId s
  | _ => True

def System.Written (s : System) (e : Nat) : Prop :=
  s.serving = true ∨ ∃ t, s.loader = some t ∧ .update e .resaved ∈ s.acts t

/-- The record of the VM is on disk as it is in memory, unless its Create or its Delete is under way. -/
def System.Stored (s : System) (e : Nat) : Prop :=
  (s.record e).state ≠ .creating → (s.record e).state ≠ .deleting → s.disk.get (s.record e).id = some (s.record e)

structure UpToDate (s : System) : Prop where
  writable : s.writable = true
  distinct : s.Distinct
  past : ∀ t e, .update e .resaved ∈ s.acts t → e < s.nextEntry
  unsaved : ∀ t e, s.loading = some e → .update e .resaved ∉ s.acts t
  stored : ∀ e, s.Present e → s.Written e → s.Stored e

theorem System.acts_of_effect {t' : Nat} {o : Op} (h : o ∈ (s.effect t op).acts t') (hne : o ≠ op) :
    o ∈ s.acts t' := by
  rw [acts_effect] at h
  split at h
  · exact (List.mem_cons.1 h).resolve_left hne
  · exact h

theorem System.loader_effect (hne : op ≠ .loaded) :
    (s.effect t op).serving = s.serving ∧ (s.effect t op).loader = s.loader := by
  cases op with
  | loaded => exact absurd rfl hne
  | _ => exact ⟨rfl, rfl⟩

theorem System.Written.of_effect (hg : op.Guard cfg s t) (ha : s.Alive e)
    (hne : .update e .resaved ≠ op) (h : (s.effect t op).Written e) : s.Written e := by
  by_cases hop : op = .loaded
  · subst hop
    exact .inr ⟨t, hg.1, hg.2.2.2.2 e ha⟩
  obtain ⟨hserving, hloader⟩ := loader_effect (s := s) (t := t) hop
  rcases h with hs | ⟨t', hl, hmem⟩
  · exact .inl (hserving.symm.trans hs)
  · exact .inr ⟨t', hloader.symm.trans hl, acts_of_effect hmem hne⟩

namespace UpToDate

theorem stored_unsaved (h : UpToDate s) (hi : Inv s) {u : Update} (hg : (Op.update e u).Guard cfg s t)
    (hs : u.saves = false) (hw : (s.effect t (.update e u)).Written e) :
    (s.effect t (.update e u)).Stored e := by
  intro hcreating hdeleting
  rw [update_record] at hcreating hdeleting
  cases u with
  | volume pub =>
    rcases ((hi.entry e).owner t hg.2.2).2.2 with hstate | ⟨hstate, -⟩
    · exact absurd hstate hcreating
    · exact absurd hstate hdeleting
  | reattachFailed err =>
    obtain ⟨-, hl, hloading⟩ := hg
    rcases hw with hserving | ⟨t', -, hmem⟩
    · cases (hi.serving hserving).symm.trans hl
    · exact absurd (acts_of_effect hmem nofun) (h.unsaved t' e hloading)
  | _ => cases hs

theorem not_dir (h : UpToDate s) (hi : Inv s) (hg : op.Guard cfg s t) (hf : op.FreshId s)
    (hp : s.Present e) (hcreating : (s.record e).state ≠ .creating)
    (hdeleting : (s.record e).state ≠ .deleting) : op.dir ≠ some (s.record e).id := by
  have ha := (hi.vms _ _ hp).1
  intro hdir
  cases op with
  | allocate id =>
    cases hdir
    exact hf e (hi.alive_lt ha) ha rfl
  | undoAllocate id =>
    cases hdir
    cases hp.symm.trans hg.2.1
  | removeDir id =>
    cases hdir
    obtain ⟨e', hid, hvacant, -, hyields⟩ := hg
    obtain rfl := h.distinct e' e hvacant.2.1 ha hid
    rcases hyields with hstate | howner
    · exact hdeleting hstate
    · rcases ((hi.entry e').owner t howner).2.2 with hstate | ⟨hstate, -⟩
      · exact hcreating hstate
      · exact hdeleting hstate
  | _ => cases hdir

theorem stored_effect (h : UpToDate s) (hi : Inv s) (hg : op.Guard cfg s t) (hf : op.FreshId s)
    (hp : s.Present e) (hw : (s.effect t op).Written e) : (s.effect t op).Stored e := by
  have ha := (hi.vms _ _ hp).1
  have hrec := hi.record_effect (e := e) hg fun _ => (hi.alive_lt ha).ne
  cases hwrites : op.writes s e with
  | some u =>
    cases hs : u.saves with
    | true => exact fun _ _ => Inv.disk_saved hwrites hs h.writable
    | false =>
      rcases Op.writes_cases hwrites with rfl | ⟨phase, hs', -, rfl⟩ | ⟨p, exit, timeout, c, -, rfl⟩
      · exact h.stored_unsaved hi hg hs hw
      · cases phase <;> cases hs
      · cases hs
  | none =>
    rw [hwrites] at hrec
    have hne : .update e .resaved ≠ op := by
      rintro rfl
      rw [Op.writes, if_pos rfl] at hwrites
      cases hwrites
    intro hcreating hdeleting
    rw [hrec] at hcreating hdeleting ⊢
    have hbefore := h.stored e hp (Written.of_effect hg ha hne hw) hcreating hdeleting
    rw [Inv.disk_frame (fun e' u hw' hid => ?_) (h.not_dir hi hg hf hp hcreating hdeleting)]
    · exact hbefore
    · obtain rfl := h.distinct e' e (Op.alive_of_writes hg hw') ha hid
      rw [hwrites] at hw'
      cases hw'

theorem unsaved_effect (h : UpToDate s) (hg : op.Guard cfg s t) {t' : Nat}
    (hl : (s.effect t op).loading = some e) : .update e .resaved ∉ (s.effect t op).acts t' := by
  intro hmem
  have hold : s.loading = some e → False := by
    intro hloading
    by_cases hop : .update e .resaved = op
    · subst hop
      cases hloading.symm.trans hg.2.2
    · exact h.unsaved t' e hloading (acts_of_effect hmem hop)
  cases op with
  | loadEntry id r =>
    have hnew : (if r.loaded.state.live then some s.nextEntry else none) = some e := hl
    split at hnew <;> cases hnew
    exact absurd (h.past t' _ (acts_of_effect hmem (by simp))) (lt_irrefl _)
  | loadDirs | loadSkip | loaded => exact hold hl
  | _ =>
    rcases (Inv.loading_effect hg rfl).2.2.2 with hsame | hnone
    · exact hold (hsame.symm.trans hl)
    · cases hl.symm.trans hnone

theorem stored_added (h : UpToDate s) (hi : Inv s) (hg : op.Guard cfg s t) (hadd : op.adds = true)
    (hw : (s.effect t op).Written s.nextEntry) : (s.effect t op).Stored s.nextEntry := by
  intro hcreating _
  rcases Inv.record_added (s := s) (t := t) op hadd with ⟨id, m, cid, spec, rfl, hrec⟩ | ⟨id, r, rfl, -⟩
  · rw [hrec] at hcreating
    exact absurd rfl hcreating
  · rcases hw with hserving | ⟨t', -, hmem⟩
    · cases (hi.serving hserving).symm.trans hg.1
    · exact absurd (h.past t' _ (acts_of_effect hmem nofun)) (lt_irrefl _)

theorem effect (h : UpToDate s) (hi : Inv s) (hg : op.Guard cfg s t) (hf : op.FreshId s) :
    UpToDate (s.effect t op) where
  writable := (s.writable_effect t op).trans h.writable
  distinct := h.distinct.effect hi hg hf
  past t' e hmem := by
    rw [Inv.nextEntry_effect]
    by_cases hop : .update e .resaved = op
    · subst hop
      exact (hi.alive_lt hg.1).trans_le (Nat.le_add_right ..)
    · exact (h.past t' e (acts_of_effect hmem hop)).trans_le (Nat.le_add_right ..)
  unsaved _ _ hl := h.unsaved_effect hg hl
  stored e hp hw := by
    rcases hi.present_of_effect hg hp with hold | ⟨hadd, rfl⟩
    · exact h.stored_effect hi hg hf hold hw
    · exact h.stored_added hi hg hadd hw

theorem outside {x : Outside} {n : Nat} (h : UpToDate s) (hi : Inv s) (hk : WritesThrough s (.env x))
    (hx : s.outside n x = some s') : UpToDate (s'.noting x s) := by
  have hdistinct := h.distinct.outside hx
  have hw : s'.writable = true := by
    cases x with
    | disk w =>
      cases hx
      exact hk
    | _ => exact (writable_outside hx nofun).trans h.writable
  have hloader := loader_outside hx
  rcases outside_split hx with _ | ⟨hne⟩
  · exact ⟨hw, hdistinct, h.past, nofun, fun _ hp => absurd hp GoMap.get_empty_ne⟩
  · refine ⟨hw, hdistinct, h.past, h.unsaved, fun e hp hwritten => h.stored e hp ?_⟩
    rcases hwritten with hs | ⟨t, hl, hmem⟩
    · exact .inl hs
    · have hup : s.up = true := by
        by_contra hup
        exact (hi.down (by simpa using hup)).2.2 e (hi.vms _ _ hp).1
      exact .inr ⟨t, (hloader hne hup).symm.trans hl, hmem⟩

theorem initial : UpToDate {} where
  writable := rfl
  distinct := .initial
  past _ _ hmem := absurd hmem List.not_mem_nil
  unsaved := nofun
  stored _ hp := absurd hp GoMap.get_empty_ne

end UpToDate

theorem record_on_disk_current (cfg : Config) {pool : Pool} (h : Runs cfg WritesThrough pool)
    (hs : pool.shared.serving = true) (hp : pool.shared.Present e)
    (hcreating : (pool.shared.record e).state ≠ .creating) (hdeleting : (pool.shared.record e).state ≠ .deleting) :
    pool.shared.disk.get (pool.shared.record e).id = some (pool.shared.record e) := by
  have hcurrent : UpToDate pool.shared :=
    Runs.invariant (I := UpToDate) .initial (fun _ _ _ hi hI hg hk => hI.effect hi hg hk)
      (fun _ _ _ _ hi hI hk hx => hI.outside hi hk hx) h
  exact hcurrent.stored e hp (.inl hs) hcreating hdeleting

instance : ∀ ev, Decidable (WritesThrough s ev)
  | .op .. | .call _ => by delta WritesThrough; infer_instance
  | .env x => by induction x using Outside.casesOn <;> delta WritesThrough <;> infer_instance

namespace Sample

def installed : List Move :=
  withNetwork ++ creates 2 { name := "one", network := "a" } "01" ++ oks 2 2 ++
    [.env (.exit 0 ⟨0, ""⟩), .go 3 (.exited {})] ++ oks 3 3

/-- A Create has its entry, and a Delete of it runs to its end. A second Create draws the same id and
starts its installer; then the first goes on and finds the volume there. -/
def idAgain : List Move :=
  allocated ++ [.call (.delete "01")] ++ oks 3 18 ++ creates 4 { name := "two", network := "a" } "01" ++
    oks 4 2 ++ oks 2 2 ++ [.go 2 (.ids "key" "")] ++ oks 2 2 ++ [.go 2 (.err "volume 01 exists")] ++ oks 2 7

end Sample
open Sample

theorem record_on_disk_current_installed : ∃ pool, Runs config WritesThrough pool ∧
      (pool.shared.serving = true ∧ pool.shared.Present 0 ∧ (pool.shared.record 0).state = .installing ∧
        (pool.shared.record 0).installedAt.isSome = true) ∧
      pool.shared.disk.get (pool.shared.record 0).id = some (pool.shared.record 0) :=
  Runs.witness installed (by decide +kernel) fun _ hrun hp =>
    record_on_disk_current config hrun hp.1 hp.2.1 (by rw [hp.2.2.1]; nofun) (by rw [hp.2.2.1]; nofun)

theorem record_on_disk_lost :
    ∃ pool, Runs config DiskHolds pool ∧ pool.shared.serving = true ∧ pool.shared.Present 1 ∧
      (pool.shared.record 1).state = .installing ∧
      pool.shared.disk.get (pool.shared.record 1).id = none :=
  Runs.sample idAgain (by decide +kernel)

end VmManager.Vm
