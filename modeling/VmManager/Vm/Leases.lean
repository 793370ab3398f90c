import VmManager.Vm.Enrolment
import VmManager.Vm.Ledger

/-! Leases and the VMs that use them. A network that is deleted only while it has no lease outlives its
users; and the address in a record is that of the lease, unless vm-manager ends between the writes of
vm.json and networks.json. -/
namespace VmManager.Vm
open Encoding Attest Interleaving Function Vm.System
variable {cfg : Config} {s s' : System} {t t' e n : Nat} {op : Op} {id : String} {ip : Network.Addr}

theorem VM.loaded_address (r : VM) :
    r.loaded.spec = r.spec ∧ r.loaded.ip = r.ip ∧ r.loaded.mac = r.mac := by
  unfold VM.loaded
  split <;> exact ⟨rfl, rfl, rfl⟩

def Op.DeletesEmpty (s : System) : Op → Prop
  | .net (.delete _ n _) => ∀ net, s.nets.net n = some net → net.leases.entries = []
  | _ => True

/-- Networks are deleted only while they have no lease, and ids are fresh. -/
def LeasesLast (s : System) : Event → Prop
  | .op _ o => o.FreshId s ∧ o.DeletesEmpty s
  | _ => True

theorem System.lease_cases (s : System) (t : Nat) (op : Op) (e : Nat) : (s.effect t op).lease e = s.lease e ∨
      (∃ n id ip, op = .net (.attach e n id ip) ∧ (s.effect t op).lease e = some (n, ip)) ∨
      (∃ n id, op = .net (.detach e n id) ∧ (s.effect t op).lease e = none) ∨
      (op.adds = true ∧ e = s.nextEntry) := by
  have hupd : ∀ {x : Option (Nat × Network.Addr)}, op.adds = true →
      (s.effect t op).lease = update s.lease s.nextEntry x →
      (s.effect t op).lease e = s.lease e ∨ (op.adds = true ∧ e = s.nextEntry) := by
    intro x hadd hl
    by_cases he : e = s.nextEntry
    · exact .inr ⟨hadd, he⟩
    · rw [hl, update_of_ne he]
      exact .inl rfl
  cases op with
  | net o =>
    cases o with
    | attach e' n id ip =>
      by_cases he : e = e'
      · subst he
        exact .inr (.inl ⟨n, id, ip, rfl, update_self ..⟩)
      · exact .inl (update_of_ne he _ _)
    | detach e' n id =>
      by_cases he : e = e'
      · subst he
        exact .inr (.inr (.inl ⟨n, id, rfl, update_self ..⟩))
      · exact .inl (update_of_ne he _ _)
    | _ => exact .inl rfl
  | allocate => exact (hupd rfl rfl).imp_right fun h => .inr (.inr h)
  | loadEntry => exact (hupd rfl rfl).imp_right fun h => .inr (.inr h)
  | _ => exact .inl rfl

theorem System.add_nets {spec : Network.Spec} {leases : GoMap String Network.Addr}
    (hg : (Op.net (.add spec leases)).Guard cfg s t) :
    s.nets.add spec leases = .ok (s.effect t (.net (.add spec leases))).nets := by
  obtain ⟨-, -, m, hm⟩ := hg
  have hnets : (s.effect t (.net (.add spec leases))).nets = m := by
    simp [System.effect, System.apply, NetOp.onNets, hm, Except.toOption]
  rw [hnets]
  exact hm

theorem Inv.gives_effect {name : String} (hi : Inv s) (hg : op.Guard cfg s t)
    (hk : op.DeletesEmpty s) (h : s.nets.Gives n name id ip)
    (hd : ∀ e n', op ≠ .net (.detach e n' id)) : (s.effect t op).nets.Gives n name id ip := by
  cases op with
  | net o =>
    cases o with
    | attach e' n' id' ip' => exact h.attach n' id'
    | detach e' n' id' =>
      refine h.detach n' fun heq => ?_
      subst heq
      exact hd e' n' rfl
    | add spec leases => exact h.add hi.nets (add_nets hg)
    | delete name' n' clean => exact h.delete hk
    | _ => exact h
  | _ => exact h

theorem Inv.proc_cases (hi : Inv s) (hg : op.Guard cfg s t)
    (hp : ((s.effect t op).entries e).proc ≠ none) : (s.entries e).proc ≠ none ∨
      (∃ phase h, op = .track e phase h) ∨ ∃ phase h, op = .reattach e phase h := by
  rcases hi.proc_effect hg e with hx | ⟨hop, -⟩ | ⟨-, hx⟩
  · exact .inl (hx ▸ hp)
  · exact .inr hop
  · exact absurd hx hp

structure Leased (s : System) : Prop where
  distinct : s.Distinct
  held : ∀ e n ip, s.Alive e → s.lease e = some (n, ip) → s.nets.Gives n (s.record e).spec.network (s.record e).id ip
  tracked : ∀ e, (s.entries e).proc ≠ none → s.Alive e ∧ s.lease e ≠ none

namespace Leased

theorem held_effect (h : Leased s) (hi : Inv s) (hg : op.Guard cfg s t) (hk : op.DeletesEmpty s)
    (ha : (s.effect t op).Alive e) (hl : (s.effect t op).lease e = some (n, ip)) :
    (s.effect t op).nets.Gives n ((s.effect t op).record e).spec.network
      ((s.effect t op).record e).id ip := by
  rcases hi.alive_of_effect hg ha with hold | ⟨hadd, rfl⟩
  · obtain ⟨hid, -, hspec⟩ := hi.ident hg hold
    rw [hid, hspec]
    rcases s.lease_cases t op e with hsame | ⟨n', id', ip', rfl, hnew⟩ |
      ⟨_, _, -, hnone⟩ | ⟨-, rfl⟩
    · refine hi.gives_effect hg hk (h.held e n ip hold (hsame ▸ hl)) fun e' n' hop => ?_
      subst hop
      obtain ⟨-, hid', hy⟩ := hg
      obtain rfl := h.distinct e e' hold hy.1.2.1 hid'.symm
      have hnone : (s.effect t (.net (.detach e n' (s.record e).id))).lease e = none := update_self ..
      cases hnone.symm.trans hl
    · obtain ⟨-, -, hid', net, net', hnet, hat, hname⟩ := hg
      obtain ⟨rfl, rfl⟩ := Prod.mk.inj (Option.some.inj (hnew.symm.trans hl))
      rw [← hname, hid']
      exact .of_attach hnet hat
    · cases hnone.symm.trans hl
    · exact absurd (hi.alive_lt hold) (lt_irrefl _)
  · cases op with
    | allocate id m cid spec =>
      have hnone : (s.effect t (.allocate id m cid spec)).lease s.nextEntry = none := update_self ..
      cases hnone.symm.trans hl
    | loadEntry id r =>
      obtain ⟨-, -, -, rfl, -⟩ := hg
      have hrec : (s.effect t (.loadEntry r.id r)).record s.nextEntry = r.loaded := by
        simp [System.effect, System.apply, addEntry, System.record]
      have hlease : (s.effect t (.loadEntry r.id r)).lease s.nextEntry =
          s.nets.leaseOf r.spec.network r.id := update_self ..
      rw [hrec, VM.loaded_id, r.loaded_address.1]
      exact .of_leaseOf hi.nets (hlease.symm.trans hl)
    | _ => cases hadd

theorem tracked_effect (h : Leased s) (hi : Inv s) (hg : op.Guard cfg s t)
    (hp : ((s.effect t op).entries e).proc ≠ none) :
    (s.effect t op).Alive e ∧ (s.effect t op).lease e ≠ none := by
  have hold : s.Alive e ∧ s.lease e ≠ none := by
    rcases hi.proc_cases hg hp with hp' | ⟨phase, hs, rfl⟩ | ⟨phase, hs, rfl⟩
    · exact h.tracked e hp'
    · obtain ⟨-, ha, -, -, -, -, -, -, -, -, -, heq⟩ := hg
      exact ⟨ha, heq.1⟩
    · obtain ⟨-, hl, -, -, heq⟩ := hg
      exact ⟨((hi.entry e).loading hl).1, heq.1⟩
  refine ⟨hi.alive_effect hg hold.1, ?_⟩
  rcases s.lease_cases t op e with hsame | ⟨_, _, _, -, hnew⟩ | ⟨n, id, rfl, -⟩ |
    ⟨-, rfl⟩
  · rw [hsame]
    exact hold.2
  · rw [hnew]
    simp
  · have hnone : (s.entries e).proc = none := hg.2.2.1.2.2.1
    exact absurd hnone hp
  · exact absurd (hi.alive_lt hold.1) (lt_irrefl _)

theorem effect (h : Leased s) (hi : Inv s) (hg : op.Guard cfg s t) (hk : LeasesLast s (.op t op)) :
    Leased (s.effect t op) where
  distinct := h.distinct.effect hi hg hk.1
  held _ _ _ ha hl := h.held_effect hi hg hk.2 ha hl
  tracked _ hp := h.tracked_effect hi hg hp

theorem outside {x : Outside} {n : Nat} (h : Leased s) (hx : s.outside n x = some s') :
    Leased (s'.noting x s) := by
  have hd := h.distinct.outside hx
  rcases outside_split hx with _ | _
  · exact ⟨hd, fun _ _ _ ha => absurd rfl ha, fun _ hp => absurd rfl hp⟩
  · exact ⟨hd, h.held, h.tracked⟩

theorem initial : Leased {} := ⟨.initial, fun _ _ _ ha => absurd rfl ha, fun _ hp => absurd rfl hp⟩

end Leased

theorem Runs.leased {pool : Pool} (h : Runs cfg LeasesLast pool) : Leased pool.shared :=
  Runs.invariant (I := Leased) .initial (fun _ _ _ hi hI hg hk => hI.effect hi hg hk)
    (fun _ _ _ _ _ hI _ hx => hI.outside hx) h

theorem network_outlives_users (cfg : Config) {pool : Pool}
    (h : Runs cfg LeasesLast pool) (e : Nat) (hp : (pool.shared.entries e).proc ≠ none) :
    ∃ n net ip, pool.shared.nets.get (pool.shared.record e).spec.network = some n ∧
      pool.shared.nets.net n = some net ∧ net.closed = false ∧
      net.leases.get (pool.shared.record e).id = some ip := by
  have hl := h.leased
  obtain ⟨ha, hlease⟩ := hl.tracked e hp
  obtain ⟨⟨n, ip⟩, hlease⟩ := Option.ne_none_iff_exists'.1 hlease
  have hgives := hl.held e n ip ha hlease
  have hget := hgives.current h.inv.nets
  obtain ⟨net, hnet, hopen, hip, -⟩ := hgives
  exact ⟨n, net, ip, hget, hnet, hopen, hip⟩

instance : Decidable (op.DeletesEmpty s) := by
  unfold Op.DeletesEmpty
  split <;> infer_instance

instance : ∀ ev, Decidable (LeasesLast s ev)
  | .op .. | .call _ | .env _ => by delta LeasesLast; infer_instance

theorem network_outlives_users_deleted :
    ∃ pool, Runs Sample.config LeasesLast pool ∧ ((pool.shared.entries 0).proc ≠ none ∧
      (pool.shared.nets.net 1).isSome = true ∧ pool.shared.nets.get "b" = none) ∧
      ∃ n net ip, pool.shared.nets.get (pool.shared.record 0).spec.network = some n ∧
        pool.shared.nets.net n = some net ∧ net.closed = false ∧
        net.leases.get (pool.shared.record 0).id = some ip :=
  Runs.witness (Sample.withNetwork ++ [.call (.createNetwork { name := "b", cidr := ⟨0x0a000100, 24⟩ })] ++
      Sample.oks 2 7 ++ Sample.creates 3 { name := "one", network := "a" } "01" ++ [.call (.deleteNetwork "b")] ++
      Sample.oks 4 5) (by decide +kernel) fun _ hrun hp => network_outlives_users Sample.config hrun 0 hp.1

namespace Sample

/-- Two DeleteNetworks have seen no VM of the network. A Create gets its first lease between the halves of
the one and, from the network of the same name that was created since, its second between the halves of
the other. -/
def stampede : List Move :=
  withNetwork ++ [.call (.deleteNetwork "a")] ++ oks 2 1 ++ [.call (.deleteNetwork "a")] ++ oks 3 1 ++
    [.call (.create { name := "one", network := "a" }), .go 4 .ok, .go 4 (.ids "01" "machine")] ++
    oks 4 2 ++ [.go 4 (.ids "key" "")] ++ oks 4 4 ++ oks 2 1 ++ oks 4 1 ++ oks 2 5 ++ oks 4 1 ++
    [.call (.createNetwork { name := "a", cidr := ⟨0x0a000000, 24⟩ })] ++ oks 5 7 ++ oks 4 4 ++
    oks 3 1 ++ oks 4 1 ++ oks 3 1 ++ oks 4 3

end Sample

theorem network_deleted_under_user : ∃ pool, Runs Sample.config (fun _ _ => True) pool ∧ pool.shared.closing = false ∧
      (pool.shared.entries 0).proc ≠ none ∧ (pool.shared.record 0).spec.network = "a" ∧
      pool.shared.nets.get "a" = none :=
  Runs.sample Sample.stampede (by decide +kernel)

end VmManager.Vm
