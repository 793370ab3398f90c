import VmManager.Vm.Addresses

/-! Networks, networks.json and the metadata servers once every call has returned. What a call still owes
is in its books; so what holds when no call is in flight is an invariant that allows for the books of
those in progress. -/
namespace VmManager.Vm
open Encoding Attest Interleaving Option Vm.System List
variable {cfg : Config} {s s' : System} {t t' e n : Nat} {op : Op} {id name : String}

theorem System.books_cases (s : System) (t : Nat) (op : Op) (t' : Nat) :
    (t' = t ∧ (s.effect t op).books t' = (s.books t).enter op) ∨
      (t' ≠ t ∧ (s.effect t op).books t' = s.books t') := by
  by_cases h : t' = t
  · subst h
    exact .inl ⟨rfl, s.books_effect t' op⟩
  · exact .inr ⟨h, s.books_other op h⟩

theorem System.books_field {β : Type} (f : Books → β) (t : Nat) {op : Op}
    (h : f ((s.books t).enter op) = f (s.books t)) (t' : Nat) :
    f ((s.effect t op).books t') = f (s.books t') := by
  rcases s.books_cases t op t' with ⟨rfl, hb⟩ | ⟨-, hb⟩
  · rw [hb, h]
  · rw [hb]

/-- By these operations a call begins to change the networks: Create makes an entry, Delete gives back a
lease, CreateNetwork and Load add a network, DeleteNetwork deletes one. -/
def Op.touches : Op → Bool
  | .allocate .. | .net (.detach ..) | .net (.add ..) | .net (.delete ..) => true
  | _ => false

def Op.ends : Op → Bool
  | .returned | .loaded => true
  | _ => false

/-- No call that changes the networks is in flight: the last thing each of them did was to return, or in
Load to be done. -/
def System.Quiet (s : System) : Prop := ∀ t, (∃ o ∈ s.deeds t, o.touches = true) → (s.deeds t).head?.any Op.ends = true

theorem Books.enter_quiet {b : Books} {o : Op} (ho : o.touches = false) (hc : b.creating = false) :
    (b.enter o).creating = false ∧ ((b.enter o).dirty = true → b.dirty = true) ∧
      (b.unserved = [] → (b.enter o).unserved = []) := by
  cases o with
  | allocate => cases ho
  | net o =>
    cases o with
    | attach =>
      refine ⟨hc, fun hd => ?_, fun hu => hu⟩
      have hd : (b.dirty || b.creating) = true := hd
      rwa [hc, Bool.or_false] at hd
    | detach | add | delete => cases ho
    | serve | running | keep =>
      exact ⟨hc, fun hd => hd, fun hu => by simp [enter, note, served, forsaken, hu]⟩
    | _ => exact ⟨hc, fun hd => hd, fun hu => hu⟩
  | host o =>
    cases o with
    | writeNetworks | writeFailed => exact ⟨hc, by rintro ⟨⟩, fun hu => hu⟩
    | _ => exact ⟨hc, fun hd => hd, fun hu => hu⟩
  | update e u =>
    cases u with
    | leased => exact ⟨rfl, fun hd => hd, fun hu => hu⟩
    | _ => exact ⟨hc, fun hd => hd, fun hu => hu⟩
  | _ => exact ⟨hc, fun hd => hd, fun hu => hu⟩

theorem System.books_untouched (h : ∀ o ∈ s.deeds t, o.touches = false) :
    (s.books t).creating = false ∧ (s.books t).dirty = false ∧ (s.books t).unserved = [] := by
  unfold System.books
  revert h
  generalize s.deeds t = l
  intro h
  induction l with
  | nil => exact ⟨rfl, rfl, rfl⟩
  | cons o l ih =>
    obtain ⟨hc, hd, hu⟩ := ih (forall_mem_cons.1 h).2
    obtain ⟨h1, h2, h3⟩ := Books.enter_quiet (h o mem_cons_self) hc
    refine ⟨h1, ?_, h3 hu⟩
    by_contra hn
    cases hd.symm.trans (h2 (by simpa using hn))

theorem System.headed_effect {o : Op} {P : Books → Prop}
    (h : ∀ t, (s.deeds t).head? = some o → P (s.books t)) (hop : op = o → P ((s.books t).enter op)) :
    ∀ t', ((s.effect t op).deeds t').head? = some o → P ((s.effect t op).books t') := by
  intro t' hhead
  rw [s.deeds_effect] at hhead
  rcases s.books_cases t op t' with ⟨rfl, hb⟩ | ⟨hne, hb⟩
  · rw [hb]
    split at hhead
    · exact hop (some.inj hhead)
    · rename_i hread
      cases op with
      | read => exact h t' hhead
      | _ => exact absurd ⟨rfl, rfl⟩ hread
  · rw [hb]
    rw [if_neg fun hx => hne hx.1.symm] at hhead
    exact h t' hhead

structure Accounts (s : System) : Prop where
  returned : ∀ t, (s.deeds t).head? = some .returned → (s.books t).Through
  loaded : ∀ t, (s.deeds t).head? = some .loaded → (s.books t).unserved = [] ∧ (s.books t).dirty = false
  loading : ∀ t, (s.books t).loading = true → s.loader = some t
  creating : ∀ t, (s.books t).creating = true → s.serving = true

namespace Accounts

theorem loading_effect (h : Accounts s) (hg : op.Guard cfg s t)
    (hl : ((s.effect t op).books t').loading = true) : (s.effect t op).loader = some t' := by
  have hkeep : (op ≠ .loaded → (s.effect t op).loader = s.loader) := by
    intro hne
    cases op with
    | loaded => exact absurd rfl hne
    | _ => rfl
  rcases s.books_cases t op t' with ⟨rfl, hb⟩ | ⟨hne, hb⟩
  · rw [hb] at hl
    cases op with
    | loadNetworks => exact hg.1
    | loaded => cases hl
    | net o =>
      cases o <;> exact h.loading t' hl
    | host o =>
      cases o <;> exact h.loading t' hl
    | update e u =>
      cases u <;> exact h.loading t' hl
    | _ =>
      rw [hkeep nofun]
      exact h.loading t' hl
  · rw [hb] at hl
    have hold := h.loading t' hl
    cases op with
    | loaded => exact absurd (some.inj (hold.symm.trans hg.1)) hne
    | _ =>
      rw [hkeep nofun]
      exact hold

theorem creating_effect (h : Accounts s) (hg : op.Guard cfg s t)
    (hc : ((s.effect t op).books t').creating = true) : (s.effect t op).serving = true := by
  refine Inv.serving_mono s t op ?_
  rcases s.books_cases t op t' with ⟨rfl, hb⟩ | ⟨-, hb⟩
  · rw [hb] at hc
    cases op with
    | allocate => exact hg.1
    | net o => cases o <;> exact h.creating t' hc
    | host o => cases o <;> exact h.creating t' hc
    | update e u =>
      cases u with
      | leased => cases hc
      | _ => exact h.creating t' hc
    | _ => exact h.creating t' hc
  · rw [hb] at hc
    exact h.creating t' hc

theorem effect (h : Accounts s) (hg : op.Guard cfg s t) (hb : (s.books t).Allows op) :
    Accounts (s.effect t op) where
  returned := by
    refine headed_effect (P := Books.Through) h.returned fun hop => ?_
    subst hop
    exact hb
  loaded := by
    refine headed_effect (P := fun b => b.unserved = [] ∧ b.dirty = false) h.loaded fun hop => ?_
    subst hop
    exact hb
  loading _ hl := h.loading_effect hg hl
  creating _ hc := h.creating_effect hg hc

theorem outside {x : Outside} {n : Nat} (h : Accounts s) (hi : Inv s)
    (hx : s.outside n x = some s') : Accounts (s'.noting x s) := by
  have hdeeds := s.deeds_outside (x := x) s'
  have hbooks := s.books_outside (x := x) s'
  have hloader := loader_outside hx
  rcases outside_split hx with _ | ⟨hne⟩
  · exact ⟨nofun, nofun, nofun, nofun⟩
  · refine ⟨fun t hh => ?_, fun t hh => ?_, fun t hl => ?_, fun t hc => ?_⟩
    · rw [hdeeds hne] at hh
      rw [hbooks hne]
      exact h.returned t hh
    · rw [hdeeds hne] at hh
      rw [hbooks hne]
      exact h.loaded t hh
    · rw [hbooks hne] at hl
      have hold := h.loading t hl
      exact (hloader hne (hi.up_of_loader hold)).trans hold
    · rw [hbooks hne] at hc
      exact h.creating t hc

theorem initial : Accounts {} := ⟨nofun, nofun, nofun, nofun⟩

theorem quiet (h : Accounts s) (hi : Inv s) (hs : s.serving = true) (hq : s.Quiet) (t : Nat) :
    (s.books t).unserved = [] ∧ ((s.books t).gaveUp = true ∨ (s.books t).dirty = false) := by
  by_cases htouch : ∃ o ∈ s.deeds t, o.touches = true
  · obtain ⟨o, hhead, hends⟩ := (Option.any_eq_true _ _).1 (hq t htouch)
    cases o with
    | returned =>
      rcases (h.returned t hhead).1 with hl | hsettled
      · cases (h.loading t hl).symm.trans (hi.serving hs)
      · exact hsettled
    | loaded => exact ⟨(h.loaded t hhead).1, .inr (h.loaded t hhead).2⟩
    | _ => cases hends
  · have hnone : ∀ o ∈ s.deeds t, o.touches = false := by
      intro o ho
      by_contra hn
      exact htouch ⟨o, ho, by simpa using hn⟩
    obtain ⟨-, hd, hu⟩ := books_untouched hnone
    exact ⟨hu, .inr hd⟩

end Accounts

theorem Runs.accounts {K : System → Event → Prop}
    {pool : Pool} (h : Runs cfg K pool) : Accounts pool.shared :=
  Runs.invariant (I := Accounts) .initial (fun _ _ _ _ hI hg hk => hI.effect hg hk.1)
    (fun _ _ _ _ hi hI _ hx => hI.outside hi hx) h.booked

/-- networks.json is written with what the networks are at that moment; a VM that is started again has
its lease; CreateNetwork does not give up a network it added, and DeleteNetwork has no error. -/
def Op.Persists (s : System) (t : Nat) : Op → Prop
  | .host (.writeNetworks states) => states = s.nets.states
  | .net (.attach _ n id _) => (s.books t).creating = true ∨ s.nets.holds n id = true
  | .net (.keep name) => name ∉ (s.books t).unserved
  | .net (.delete name _ clean) => name ∉ (s.books t).unserved ∧ clean = true
  | _ => True

def SnapshotsFresh (s : System) : Event → Prop
  | .op t o => o.Persists s t
  | .env (.disk writable) => writable = true
  | _ => True

structure Saved (s : System) : Prop where
  writable : s.writable = true
  gaveUp : ∀ t, (s.books t).gaveUp = false
  ordered : Network.Ordered s.host.networksFile
  saved : s.serving = true → s.host.networksFile = s.nets.states ∨ ∃ t, (s.books t).dirty = true
  restoring : s.serving = false → ∀ name net, s.nets.find name = some net → net.state ∈ s.host.networksFile

namespace Books
variable {b : Books} {o : Op}

theorem dirty_enter (hd : b.dirty = true) (hw : ∀ states, o ≠ .host (.writeNetworks states))
    (hf : o ≠ .host .writeFailed) : (b.enter o).dirty = true := by
  cases o with
  | net o =>
    cases o with
    | attach | add => exact (Bool.or_eq_true_iff ..).2 (.inl hd)
    | detach | delete => rfl
    | _ => exact hd
  | host o =>
    cases o with
    | writeNetworks states => exact absurd rfl (hw states)
    | writeFailed => exact absurd rfl hf
    | _ => exact hd
  | update e u => cases u <;> exact hd
  | _ => exact hd

theorem gaveUp_enter (hg : b.gaveUp = false) (hk : ∀ name, o = .net (.keep name) → name ∉ b.unserved)
    (hd : ∀ name n clean, o = .net (.delete name n clean) → name ∉ b.unserved ∧ clean = true) :
    (b.enter o).gaveUp = false := by
  cases o with
  | net o =>
    cases o with
    | keep name => simp [enter, note, forsaken, hg, hk name rfl]
    | delete name n clean => simp [enter, note, forsaken, hg, hd name n clean rfl]
    | _ => exact hg
  | host o => cases o <;> exact hg
  | update e u => cases u <;> exact hg
  | _ => exact hg

end Books

namespace Saved

theorem gaveUp_effect (h : Saved s) (hk : op.Persists s t) (t' : Nat) :
    ((s.effect t op).books t').gaveUp = false := by
  rcases s.books_cases t op t' with ⟨rfl, hb⟩ | ⟨-, hb⟩
  · rw [hb]
    refine Books.gaveUp_enter (h.gaveUp t') (fun name hop => ?_) fun name n clean hop => ?_
    · subst hop
      exact hk
    · subst hop
      exact hk
  · rw [hb]
    exact h.gaveUp t'

theorem ordered_effect (h : Saved s) (hi : Inv s) (hk : op.Persists s t) :
    Network.Ordered (s.effect t op).host.networksFile := by
  cases op with
  | host o =>
    cases o with
    | writeNetworks states =>
      subst hk
      exact hi.nets.ordered
    | _ => exact h.ordered
  | _ => exact h.ordered

theorem restored (h : Saved s) (hi : Inv s) (hs : s.serving = false) (hr : s.Restored) :
    s.host.networksFile = s.nets.states := by
  refine hi.nets.states_eq h.ordered fun st => ⟨fun hst => ?_, fun hst => ?_⟩
  · obtain ⟨ref, hget⟩ := ne_none_iff_exists'.1 (hr st hst).1
    obtain ⟨net, hnet, hname, -⟩ := hi.nets.named _ _ hget
    have hfind : s.nets.find st.spec.name = some net := bind_eq_some_iff.2 ⟨ref, hget, hnet⟩
    have heq := h.ordered.eq_of_name (h.restoring hs _ net hfind) hst hname
    exact Network.Manager.mem_states.2 ⟨st.spec.name, net, hfind, heq⟩
  · obtain ⟨name, net, hfind, rfl⟩ := Network.Manager.mem_states.1 hst
    exact h.restoring hs name net hfind

theorem saved_effect (h : Saved s) (hi : Inv s) (ha : Accounts s) (hg : op.Guard cfg s t)
    (hk : op.Persists s t) (hs : (s.effect t op).serving = true) :
    (s.effect t op).host.networksFile = (s.effect t op).nets.states ∨
      ∃ t', ((s.effect t op).books t').dirty = true := by
  have hkeep : s.serving = true → (s.effect t op).nets = s.nets →
      (s.effect t op).host.networksFile = s.host.networksFile →
      (∀ states, op ≠ .host (.writeNetworks states)) → op ≠ .host .writeFailed →
      (s.effect t op).host.networksFile = (s.effect t op).nets.states ∨
        ∃ t', ((s.effect t op).books t').dirty = true := by
    intro hserv hnets hfile hw hf
    rw [hnets, hfile]
    refine (h.saved hserv).imp_right (Exists.imp fun t' hd => ?_)
    rcases s.books_cases t op t' with ⟨rfl, hb⟩ | ⟨-, hb⟩
    · rw [hb]
      exact Books.dirty_enter hd hw hf
    · rwa [hb]
  have howes : ((s.books t).enter op).dirty = true →
      ∃ t', ((s.effect t op).books t').dirty = true := fun hd => ⟨t, by rw [s.books_effect]; exact hd⟩
  cases op with
  | loaded =>
    obtain ⟨hload, -, -, hr, -⟩ := hg
    have hs : s.serving = false := by
      by_contra hn
      cases hload.symm.trans (hi.serving (by simpa using hn))
    exact .inl (h.restored hi hs hr)
  | host o =>
    cases o with
    | writeNetworks states => exact .inl hk
    | writeFailed => cases h.writable.symm.trans hg
    | _ => exact hkeep hs rfl rfl (by simp) (by simp)
  | net o =>
    cases o with
    | attach e n id ip =>
      rcases hk with hc | hl
      · exact .inr (howes ((Bool.or_eq_true_iff ..).2 (.inr hc)))
      · exact hkeep hs (Network.Manager.attach_of_holds hl) rfl (by simp) (by simp)
    | detach | delete => exact .inr (howes rfl)
    | add spec leases =>
      have hl : (s.books t).loading = false := by
        by_contra hn
        have hload := ha.loading t (by simpa using hn)
        cases hload.symm.trans (hi.serving hs)
      refine .inr (howes ((Bool.or_eq_true_iff ..).2 (.inr ?_)))
      rw [hl]
      rfl
    | _ => exact hkeep hs rfl rfl (by simp) (by simp)
  | _ => exact hkeep hs rfl rfl (by simp) (by simp)

theorem restoring_effect (h : Saved s) (ha : Accounts s) (hg : op.Guard cfg s t) (hk : op.Persists s t)
    (hs : (s.effect t op).serving = false) {net : Network.Net} (hf : (s.effect t op).nets.find name = some net) :
    net.state ∈ (s.effect t op).host.networksFile := by
  have hidle : s.serving = false := by
    by_contra hn
    have hserv := Inv.serving_mono s t op (by simpa using hn)
    cases hs.symm.trans hserv
  rw [networksFile_effect hg hidle]
  cases op with
  | net o =>
    cases o with
    | attach e n id ip =>
      rcases hk with hc | hl
      · cases (ha.creating t hc).symm.trans hidle
      · refine h.restoring hidle name net ?_
        rw [← hf]
        exact congrArg (fun m : Network.Manager => m.find name)
          (Network.Manager.attach_of_holds hl).symm
    | detach => cases hg.1.symm.trans hidle
    | delete => cases hg.2.1.symm.trans hidle
    | add spec leases =>
      have hadd := add_nets hg
      obtain ⟨-, ⟨hserv, -⟩ | ⟨-, -, hmem⟩, -⟩ := hg
      · cases hserv.symm.trans hidle
      · rcases Network.Manager.find_add hadd hf with hold | hnew
        · exact h.restoring hidle name net hold
        · rw [hnew]
          exact hmem
    | _ => exact h.restoring hidle name net hf
  | _ => exact h.restoring hidle name net hf

theorem effect (h : Saved s) (hi : Inv s) (ha : Accounts s) (hg : op.Guard cfg s t)
    (hk : op.Persists s t) : Saved (s.effect t op) where
  writable := (s.writable_effect t op).trans h.writable
  gaveUp := h.gaveUp_effect hk
  ordered := h.ordered_effect hi hk
  saved hs := h.saved_effect hi ha hg hk hs
  restoring hs _ _ hf := h.restoring_effect ha hg hk hs hf

theorem outside {x : Outside} {n : Nat} (h : Saved s) (hk : SnapshotsFresh s (.env x))
    (hx : s.outside n x = some s') : Saved (s'.noting x s) := by
  have hw : s'.writable = true := by
    cases x with
    | disk writable =>
      cases hx
      exact hk
    | _ => exact (writable_outside hx nofun).trans h.writable
  have hbooks := s.books_outside (x := x) s'
  rcases outside_split hx with _ | ⟨hne⟩
  · exact ⟨hw, fun _ => rfl, h.ordered, nofun, fun _ name net hf => by cases hf⟩
  · refine ⟨hw, fun t => ?_, h.ordered, fun hs => ?_, h.restoring⟩
    · rw [hbooks hne]
      exact h.gaveUp t
    · exact (h.saved hs).imp_right fun ⟨t, hd⟩ => ⟨t, by rw [hbooks hne]; exact hd⟩

theorem initial : Saved {} := ⟨rfl, fun _ => rfl, List.Pairwise.nil, nofun, fun _ _ _ hf => by cases hf⟩

end Saved

theorem networks_file_current (cfg : Config) {pool : Pool}
    (h : Runs cfg SnapshotsFresh pool) (hs : pool.shared.serving = true) (hq : pool.shared.Quiet) :
    pool.shared.host.networksFile = pool.shared.nets.states := by
  have hsaved : Accounts pool.shared ∧ Saved pool.shared :=
    Runs.invariant (I := fun s => Accounts s ∧ Saved s) ⟨.initial, .initial⟩
      (fun _ _ _ hi hI hg hk => ⟨hI.1.effect hg hk.1, hI.2.effect hi hI.1 hg hk.2⟩)
      (fun _ _ _ _ hi hI hk hx => ⟨hI.1.outside hi hx, hI.2.outside hk.2 hx⟩) h.booked
  rcases hsaved.2.saved hs with hfile | ⟨t, hd⟩
  · exact hfile
  · rcases (hsaved.1.quiet h.inv hs hq t).2 with hgave | hclean
    · nomatch (hsaved.2.gaveUp t).symm.trans hgave
    · nomatch hclean.symm.trans hd

instance : Decidable (op.Persists s t) := by
  induction op using Op.casesOn with
  | net o => induction o using NetOp.casesOn <;> delta Op.Persists <;> infer_instance
  | host o => induction o using HostOp.casesOn <;> delta Op.Persists <;> infer_instance
  | _ => delta Op.Persists; infer_instance

instance : ∀ ev, Decidable (SnapshotsFresh s ev)
  | .op .. | .call _ => by delta SnapshotsFresh; infer_instance
  | .env x => by induction x using Outside.casesOn <;> delta SnapshotsFresh <;> infer_instance

def System.threads (s : System) : List Nat :=
  (since Happening.isCrash s.hist).filterMap fun
    | .did t _ _ => some t
    | .outside _ => none

theorem System.mem_threads {o : Op} (h : o ∈ s.deeds t) : t ∈ s.threads := by
  obtain ⟨x, hx, heq⟩ := mem_filterMap.1 h
  cases x with
  | outside => cases heq
  | did t' o' k =>
    simp only [ite_none_right_eq_some, some.injEq] at heq
    exact mem_filterMap.2 ⟨_, hx, congrArg some heq.1.1⟩

instance : Decidable s.Quiet :=
  decidable_of_iff (∀ t ∈ s.threads, (∃ o ∈ s.deeds t, o.touches = true) → (s.deeds t).head?.any Op.ends = true)
    ⟨fun h t hx => h t (hx.elim fun _ hx => mem_threads hx.1) hx, fun h t _ => h t⟩

namespace Sample

def fresh : List Move := [.env .start] ++ oks 0 4

def network (name : String) : Network.Spec := { name, cidr := ⟨0x0a000000, 24⟩ }

end Sample
open Sample

theorem networks_file_current_overlapped : ∃ pool, Runs config SnapshotsFresh pool ∧
      (pool.shared.serving = true ∧ pool.shared.Quiet ∧ (pool.shared.nets.get "b").isSome = true) ∧
      pool.shared.host.networksFile = pool.shared.nets.states :=
  Runs.witness (fresh ++ [.call (.createNetwork (Sample.network "a"))] ++ oks 1 5 ++
      [.call (.createNetwork (Sample.network "b"))] ++ oks 2 8 ++ oks 1 3 ++
      creates 3 { name := "one", network := "a" } "01" ++ oks 3 4 ++ restarts 5 ++ oks 5 5)
    (by decide +kernel) fun _ hrun hp => networks_file_current config hrun hp.1 hp.2.1

namespace Sample

/-- A CreateNetwork writes its snapshot after another call has added a network and written its own. -/
def overwritten : List Move :=
  fresh ++ [.call (.createNetwork (network "a"))] ++ oks 1 6 ++
    [.call (.createNetwork (network "b"))] ++ oks 2 8 ++ oks 1 2

end Sample

theorem networks_file_stale : ∃ pool, Runs config (fun _ _ => True) pool ∧ pool.shared.serving = true ∧
      pool.shared.Quiet ∧ pool.shared.host.networksFile ≠ pool.shared.nets.states :=
  Runs.sample overwritten (by decide +kernel)

end VmManager.Vm
