import VmManager.Vm.Networks

/-! The metadata servers of the networks. CreateNetwork adds a network and then serves it, DeleteNetwork
deletes it and then takes the server out; when no call is in flight every network has its server, if the
two never meet between their halves. -/
namespace VmManager.Vm
open Encoding Attest Interleaving List Option Function GoMap
variable {cfg : Config} {s s' : System} {t t' e n k : Nat} {op o : Op} {name : String} {b : Books}

/-- The network under the name has an up server, filed under the name and listening on this network. -/
def System.Serves (s : System) (name : String) (n : Nat) : Prop :=
  ∃ k, s.imds.byName.get name = some k ∧ s.imds.all k = { net := n }

/-- A server is filed only for the network that has the name, found only if it is that network's, and
taken out only while there is no network of the name; a network that has no server is not kept; and Close
has not come to the servers. -/
def Op.FilesServers (s : System) (t : Nat) : Op → Prop
  | .net (.serve name n) => s.nets.get name = some n
  | .net (.running name) => ∀ n, s.nets.get name = some n → s.Serves name n
  | .net (.unserve name _) => s.nets.get name = none
  | .net (.keep name) => name ∉ (s.books t).unserved
  | .net (.closeServers _) => False
  | _ => True

def ServersFiled (s : System) : Event → Prop
  | .op t o => o.FilesServers s t
  | _ => True

structure Served (s : System) : Prop where
  filed : ∀ name k, s.imds.byName.get name = some k → k < s.imds.next ∧ s.Called (s.imds.all k).net name
  retired : ∀ t k, k ∈ (s.books t).retired → k < s.imds.next ∧ ∀ name, s.imds.byName.get name ≠ some k
  served : ∀ name n, s.nets.get name = some n → s.Serves name n ∨ ∃ t, name ∈ (s.books t).unserved

theorem System.Called.unique {name' : String} (h : s.Called n name) (h' : s.Called n name') :
    name = name' := by
  obtain ⟨net, hnet, rfl⟩ := h
  obtain ⟨net', hnet', rfl⟩ := h'
  rw [some.inj (hnet.symm.trans hnet')]

theorem Books.unserved_enter (h : name ∈ b.unserved) (hs : ∀ n, o ≠ .net (.serve name n))
    (hr : o ≠ .net (.running name)) (hk : o ≠ .net (.keep name)) (hd : ∀ n clean, o ≠ .net (.delete name n clean)) :
    name ∈ (b.enter o).unserved := by
  have hfilter : ∀ name', name ≠ name' → name ∈ b.unserved.filter fun x => x != name' :=
    fun name' hne => mem_filter.2 ⟨h, bne_iff_ne.2 hne⟩
  cases o with
  | net o =>
    cases o with
    | add => exact mem_cons_of_mem _ h
    | serve name' n => exact hfilter name' fun heq => hs n (heq ▸ rfl)
    | running name' => exact hfilter name' fun heq => hr (heq ▸ rfl)
    | keep name' => exact hfilter name' fun heq => hk (heq ▸ rfl)
    | delete name' n clean => exact hfilter name' fun heq => hd n clean (heq ▸ rfl)
    | _ => exact h
  | host o => cases o <;> exact h
  | update e u => cases u <;> exact h
  | _ => exact h

theorem Books.retired_enter (h : k ∈ (b.enter o).retired) :
    k ∈ b.retired ∨ (∃ name, o = .net (.unserve name (some k))) ∨
      ∃ ks, o = .net (.closeServers ks) := by
  cases o with
  | net o =>
    cases o with
    | unserve name srv =>
      rcases mem_append.1 h with hnew | hold
      · rw [mem_toList] at hnew
        exact .inr (.inl ⟨name, by rw [hnew]⟩)
      · exact .inl hold
    | closeServers ks => exact .inr (.inr ⟨ks, rfl⟩)
    | _ => exact .inl h
  | host o => cases o <;> exact .inl h
  | update e u => cases u <;> exact .inl h
  | _ => exact .inl h

theorem System.imds_cases (s : System) (t : Nat) (op : Op) :
    (s.effect t op).imds = s.imds ∨ (∃ name n, op = .net (.serve name n)) ∨
      (∃ name srv, op = .net (.unserve name srv)) ∨ (∃ ks, op = .net (.closeServers ks)) ∨
      ∃ k, op = .net (.shutdown k) := by
  cases op with
  | net o =>
    cases o with
    | serve name n => exact .inr (.inl ⟨name, n, rfl⟩)
    | unserve name srv => exact .inr (.inr (.inl ⟨name, srv, rfl⟩))
    | closeServers ks => exact .inr (.inr (.inr (.inl ⟨ks, rfl⟩)))
    | shutdown k => exact .inr (.inr (.inr (.inr ⟨k, rfl⟩)))
    | _ => exact .inl rfl
  | _ => exact .inl rfl

namespace Served

theorem filed_effect (h : Served s) (hi : Inv s) (hg : op.Guard cfg s t)
    (hk : op.FilesServers s t) (hf : (s.effect t op).imds.byName.get name = some k) :
    k < (s.effect t op).imds.next ∧ (s.effect t op).Called ((s.effect t op).imds.all k).net name := by
  have hcalled := (hi.later hg).called
  rcases s.imds_cases t op with hsame | ⟨name', n, rfl⟩ | ⟨name', srv, rfl⟩ | ⟨ks, rfl⟩ | ⟨k', rfl⟩
  · rw [hsame] at hf ⊢
    exact ⟨(h.filed name k hf).1, hcalled _ _ (h.filed name k hf).2⟩
  · have hget : (if name = name' then some s.imds.next else s.imds.byName.get name) = some k :=
      (get_insert ..).symm.trans hf
    have hall : (s.effect t (.net (.serve name' n))).imds.all =
      update s.imds.all s.imds.next { net := n } := rfl
    rw [hall]
    split at hget
    · subst name
      obtain rfl := some.inj hget
      rw [update_self]
      exact ⟨Nat.lt_succ_self _, hcalled _ _ hg.2⟩
    · obtain ⟨hlt, hold⟩ := h.filed name k hget
      rw [update_of_ne hlt.ne]
      exact ⟨hlt.trans (Nat.lt_succ_self _), hcalled _ _ hold⟩
  · have hget : (if name = name' then none else s.imds.byName.get name) = some k :=
      (get_erase ..).symm.trans hf
    split at hget
    · cases hget
    · exact ⟨(h.filed name k hget).1, hcalled _ _ (h.filed name k hget).2⟩
  · exact hk.elim
  · obtain ⟨hlt, hold⟩ := h.filed name k hf
    have hnet : ((s.effect t (.net (.shutdown k'))).imds.all k).net = (s.imds.all k).net := by
      change (update s.imds.all k' _ k).net = _
      rw [update_apply]
      split
      · subst k
        rfl
      · rfl
    rw [hnet]
    exact ⟨hlt, hcalled _ _ hold⟩

theorem retired_old (hk : op.FilesServers s t) (hold : k < s.imds.next ∧ ∀ name, s.imds.byName.get name ≠ some k) :
    k < (s.effect t op).imds.next ∧ ∀ name, (s.effect t op).imds.byName.get name ≠ some k := by
  obtain ⟨hlt, hout⟩ := hold
  rcases s.imds_cases t op with hsame | ⟨name', n, rfl⟩ | ⟨name', srv, rfl⟩ | ⟨ks, rfl⟩ | ⟨k', rfl⟩
  · rw [hsame]
    exact ⟨hlt, hout⟩
  · refine ⟨hlt.trans (Nat.lt_succ_self _), fun name hf => ?_⟩
    have hget : (if name = name' then some s.imds.next else s.imds.byName.get name) = some k :=
      (get_insert ..).symm.trans hf
    split at hget
    · exact hlt.ne' (some.inj hget)
    · exact hout name hget
  · refine ⟨hlt, fun name hf => ?_⟩
    have hget : (if name = name' then none else s.imds.byName.get name) = some k := (get_erase ..).symm.trans hf
    split at hget
    · cases hget
    · exact hout name hget
  · exact hk.elim
  · exact ⟨hlt, hout⟩

theorem retired_effect (h : Served s) (hg : op.Guard cfg s t)
    (hk : op.FilesServers s t) (hr : k ∈ ((s.effect t op).books t').retired) :
    k < (s.effect t op).imds.next ∧ ∀ name, (s.effect t op).imds.byName.get name ≠ some k := by
  rcases s.books_cases t op t' with ⟨rfl, hb⟩ | ⟨-, hb⟩
  · rw [hb] at hr
    rcases Books.retired_enter hr with hold | ⟨name, rfl⟩ | ⟨ks, rfl⟩
    · exact retired_old hk (h.retired t' k hold)
    · have hfiled := h.filed name k hg.symm
      refine ⟨hfiled.1, fun name' hf => ?_⟩
      have hget : (if name' = name then none else s.imds.byName.get name') = some k := (get_erase ..).symm.trans hf
      split at hget
      · cases hget
      · exact absurd ((h.filed name' k hget).2.unique hfiled.2) ‹_›
    · exact hk.elim
  · rw [hb] at hr
    exact retired_old hk (h.retired t' k hr)

theorem get_effect (hi : Inv s) (hg : op.Guard cfg s t)
    (hget : (s.effect t op).nets.get name = some n) : (∃ spec leases, op = .net (.add spec leases) ∧ spec.name = name) ∨
      (s.nets.get name = some n ∧ ∀ n' clean, op ≠ .net (.delete name n' clean)) := by
  cases op with
  | net o =>
    cases o with
    | attach e n' id ip =>
      have hsame : (s.nets.attach n' id).get name = s.nets.get name := by
        simp [Network.Manager.get]
      exact .inr ⟨hsame.symm.trans hget, by simp⟩
    | detach e n' id =>
      have hsame : (s.nets.detach n' id).get name = s.nets.get name := by
        simp [Network.Manager.get]
      exact .inr ⟨hsame.symm.trans hget, by simp⟩
    | add spec leases =>
      rw [Network.Manager.get_add (System.add_nets hg)] at hget
      split at hget
      · exact .inl ⟨spec, leases, rfl, Eq.symm ‹_›⟩
      · exact .inr ⟨hget, by simp⟩
    | delete name' n' clean =>
      obtain ⟨-, -, hold⟩ := hg
      obtain ⟨net, hnet, -⟩ := hi.nets.named _ _ hold
      have hget : (if name = name' then none else s.nets.get name) = some n :=
        (Network.Manager.get_delete hnet name).symm.trans hget
      split at hget
      · cases hget
      rename_i hne
      refine .inr ⟨hget, fun n'' clean' heq => hne ?_⟩
      cases heq
      rfl
    | _ => exact .inr ⟨hget, by simp⟩
  | _ => exact .inr ⟨hget, by simp⟩

theorem serves_effect (h : Served s) (hg : op.Guard cfg s t) (hb : (s.books t).Allows op)
    (hk : op.FilesServers s t) (hget : s.nets.get name = some n) (hs : s.Serves name n) :
    (s.effect t op).Serves name n := by
  obtain ⟨k, hk', hall⟩ := hs
  rcases s.imds_cases t op with hsame | ⟨name', n', rfl⟩ | ⟨name', srv, rfl⟩ | ⟨ks, rfl⟩ | ⟨k', rfl⟩
  · rw [System.Serves, hsame]
    exact ⟨k, hk', hall⟩
  · have hne : name ≠ name' := by
      rintro rfl
      cases hg.1.symm.trans hk'
    refine ⟨k, (get_insert ..).trans ((if_neg hne).trans hk'), ?_⟩
    exact (update_of_ne (h.filed name k hk').1.ne ..).trans hall
  · have hne : name ≠ name' := by
      rintro rfl
      cases hget.symm.trans hk
    exact ⟨k, (get_erase ..).trans ((if_neg hne).trans hk'), hall⟩
  · exact hk.elim
  · have hne : k ≠ k' := by
      rintro rfl
      exact (h.retired t k hb).2 name hk'
    exact ⟨k, hk', (update_of_ne hne ..).trans hall⟩

theorem served_effect (h : Served s) (hi : Inv s) (hg : op.Guard cfg s t) (hb : (s.books t).Allows op)
    (hk : op.FilesServers s t) (hget : (s.effect t op).nets.get name = some n) :
    (s.effect t op).Serves name n ∨ ∃ t', name ∈ ((s.effect t op).books t').unserved := by
  rcases get_effect hi hg hget with ⟨spec, leases, rfl, rfl⟩ | ⟨hold, hdel⟩
  · refine .inr ⟨t, ?_⟩
    rw [s.books_effect]
    exact mem_cons_self
  rcases h.served name n hold with hs | ⟨t', ht'⟩
  · exact .inl (h.serves_effect hg hb hk hold hs)
  rcases s.books_cases t op t' with ⟨rfl, hbooks⟩ | ⟨-, hbooks⟩
  swap
  · exact .inr ⟨t', hbooks ▸ ht'⟩
  by_cases hserve : ∃ n', op = .net (.serve name n')
  · obtain ⟨n', rfl⟩ := hserve
    obtain rfl := some.inj (hold.symm.trans hk)
    exact .inl ⟨s.imds.next, (get_insert ..).trans (if_pos rfl), update_self ..⟩
  by_cases hrun : op = .net (.running name)
  · subst hrun
    exact .inl (hk n hold)
  by_cases hkeep : op = .net (.keep name)
  · subst hkeep
    exact absurd ht' hk
  refine .inr ⟨t', hbooks ▸ Books.unserved_enter ht' (fun n' heq => hserve ⟨n', heq⟩) hrun hkeep hdel⟩

theorem effect (h : Served s) (hi : Inv s) (hg : op.Guard cfg s t) (hb : (s.books t).Allows op)
    (hk : op.FilesServers s t) : Served (s.effect t op) where
  filed _ _ hf := h.filed_effect hi hg hk hf
  retired _ _ hr := h.retired_effect hg hk hr
  served _ _ hget := h.served_effect hi hg hb hk hget

theorem initial : Served {} where
  filed _ _ hf := absurd hf get_empty_ne
  retired _ _ hr := absurd hr not_mem_nil
  served _ _ hget := absurd hget get_empty_ne

theorem outside {x : Outside} {n : Nat} (h : Served s) (hx : s.outside n x = some s') :
    Served (s'.noting x s) := by
  have hbooks := s.books_outside (x := x) s'
  rcases outside_split hx with _ | ⟨hne⟩
  · exact ⟨fun _ _ hf => absurd hf get_empty_ne, fun _ _ hr => absurd hr not_mem_nil,
      fun _ _ hget => absurd hget get_empty_ne⟩
  · refine ⟨h.filed, fun t k hr => ?_, fun name n hget => ?_⟩
    · rw [hbooks hne] at hr
      exact h.retired t k hr
    · exact (h.served name n hget).imp_right fun ⟨t, ht⟩ => ⟨t, by rw [hbooks hne]; exact ht⟩

end Served

theorem network_has_server (cfg : Config) {pool : Pool}
    (h : Runs cfg ServersFiled pool) (hs : pool.shared.serving = true) (hq : pool.shared.Quiet)
    (name : String) (n : Nat) (hget : pool.shared.nets.get name = some n) :
    ∃ k, pool.shared.imds.byName.get name = some k ∧ pool.shared.imds.all k = { net := n } ∧
      ∀ name' k', pool.shared.imds.byName.get name' = some k' → (pool.shared.imds.all k').net = n →
        name' = name ∧ k' = k := by
  have hserved : Served pool.shared :=
    Runs.invariant (I := Served) .initial (fun _ _ _ hi hI hg hk => hI.effect hi hg hk.1 hk.2)
      (fun _ _ _ _ _ hI _ hx => hI.outside hx) h.booked
  rcases hserved.served name n hget with ⟨k, hk, hall⟩ | ⟨t, ht⟩
  · refine ⟨k, hk, hall, fun name' k' hk' hnet => ?_⟩
    have hcalled := (hserved.filed name' k' hk').2
    have hcalled' := (hserved.filed name k hk).2
    rw [hnet] at hcalled
    rw [hall] at hcalled'
    obtain rfl := hcalled.unique hcalled'
    exact ⟨rfl, some.inj (hk'.symm.trans hk)⟩
  · rw [(h.accounts.quiet h.inv hs hq t).1] at ht
    exact absurd ht not_mem_nil

instance (name : String) (n : Nat) : Decidable (s.Serves name n) :=
  inferInstanceAs (Decidable (∃ k ∈ s.imds.byName.get name, _))

instance (o : Op) : Decidable (o.FilesServers s t) := by
  unfold Op.FilesServers
  split <;> infer_instance

instance : ∀ ev, Decidable (ServersFiled s ev)
  | .op .. | .call _ | .env _ => by delta ServersFiled; infer_instance

namespace Sample

def recreated : List Move :=
  fresh ++ [.call (.createNetwork (network "a"))] ++ oks 1 8 ++ [.call (.deleteNetwork "a")] ++
    oks 2 8 ++ [.call (.createNetwork (network "a"))] ++ oks 3 8

end Sample
open Sample

theorem network_has_server_recreated : ∃ pool, Runs config ServersFiled pool ∧
      (pool.shared.serving = true ∧ pool.shared.Quiet ∧ pool.shared.nets.get "a" = some 1) ∧
      ∃ k, pool.shared.imds.byName.get "a" = some k ∧ pool.shared.imds.all k = { net := 1 } := by
  refine Runs.witness recreated (by decide +kernel) fun _ hrun hp => ?_
  obtain ⟨k, hk, hall, -⟩ := network_has_server config hrun hp.1 hp.2.1 "a" 1 hp.2.2
  exact ⟨k, hk, hall⟩

namespace Sample

/-- A DeleteNetwork has deleted the network and not yet taken its server out when CreateNetwork adds one
of the same name and finds the server. -/
def serverLost : List Move :=
  fresh ++ [.call (.createNetwork (network "a"))] ++ oks 1 8 ++ [.call (.deleteNetwork "a")] ++
    oks 2 3 ++ [.call (.createNetwork (network "a"))] ++ oks 3 5 ++ oks 2 5

end Sample

theorem network_without_server : ∃ pool, Runs config (fun _ _ => True) pool ∧ pool.shared.serving = true ∧
      pool.shared.Quiet ∧ pool.shared.nets.get "a" = some 1 ∧
      pool.shared.imds.byName.get "a" = none ∧ pool.shared.imds.listens 1 = false :=
  Runs.sample serverLost (by decide +kernel)

end VmManager.Vm
