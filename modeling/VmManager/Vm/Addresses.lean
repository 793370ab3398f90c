import VmManager.Vm.Leases

/-! The address in a VM record, which is stored three times: in the record, in the lease of the network and
in networks.json. -/
namespace VmManager.Vm
open Encoding Attest Interleaving GoMap Vm.System List Option
variable {cfg : Config} {s s' : System} {t t' e n : Nat} {op : Op} {id : String} {ip : Network.Addr}

namespace VM
variable {r : VM} {ev : Event} {x : Outside}

theorem update_address (r : VM) (now : Nat) (u : Update) :
    ((r.update now u).ip = r.ip ∧ (r.update now u).mac = r.mac) ∨ ∃ ip mac, u = .leased ip mac := by
  have hf := r.passing_frame now (u := u)
  cases u with
  | leased ip mac => exact .inr ⟨ip, mac, rfl⟩
  | notified | nonceIssued | exited => exact .inl ⟨(hf rfl).ip, (hf rfl).mac⟩
  | _ => exact .inl ⟨rfl, rfl⟩

def HasMac (r : VM) : Prop := ∀ ip, r.ip = some ip → r.mac = Network.macFor r.spec.network ip

def Listed (file : List Network.State) (r : VM) : Prop :=
  ∀ ip, r.ip = some ip → ∃ st ∈ file, st.spec.name = r.spec.network ∧ st.leases.get r.id = some ip

theorem HasMac.loaded (h : r.HasMac) : r.loaded.HasMac := by
  obtain ⟨hs, hip, hmac⟩ := r.loaded_address
  rw [HasMac, hs, hip, hmac]
  exact h

theorem Listed.loaded {file : List Network.State} (h : r.Listed file) : r.loaded.Listed file := by
  obtain ⟨hs, hip, -⟩ := r.loaded_address
  rw [Listed, hs, hip, loaded_id]
  exact h

end VM

/-- What `LeasesLast` asks, and vm-manager ends only while networks.json has the lease of every address in
a vm.json. -/
def AddressesSafe (s : System) : Event → Prop
  | .env .crash => ∀ id r, s.disk.get id = some r → r.Listed s.host.networksFile
  | ev => LeasesLast s ev

theorem Books.released_mono {b : Books} {o : Op} (h : (b.enter o).released = false) :
    b.released = false := by
  cases o with
  | net o =>
    cases o with
    | detach => cases h
    | _ => exact h
  | host o => cases o <;> exact h
  | update e u => cases u <;> exact h
  | _ => exact h

theorem System.networksFile_effect (hg : op.Guard cfg s t) (hs : s.serving = false) :
    (s.effect t op).host.networksFile = s.host.networksFile := by
  cases op with
  | host o =>
    cases o with
    | writeNetworks => cases hg.1.symm.trans hs
    | _ => rfl
  | _ => rfl

theorem Inv.owner_cases (hi : Inv s) (hg : op.Guard cfg s t) (e : Nat) :
    ((s.effect t op).entries e).owner = (s.entries e).owner ∨
      (((s.effect t op).entries e).owner = none ∧ ∃ phase h, op = .track e phase h) ∨
      (((s.effect t op).entries e).owner = none ∧ (s.entries e).owner = none) ∨
      (e = s.nextEntry ∧ s.serving = true) := by
  by_cases hc : op.Concerns s e
  swap
  · exact .inl (hi.same hg hc).owner
  cases op with
  | track e' phase h =>
    cases hc
    rw [s.track_entry]
    exact .inr (.inl ⟨rfl, phase, h, rfl⟩)
  | reattach e' phase h =>
    cases hc
    obtain ⟨-, hl, -⟩ := hg
    refine .inr (.inr (.inl ⟨?_, ((hi.entry e).loading hl).2.2.2.1⟩))
    simp [System.effect, System.apply, addProc]
  | exited e' p exit timeout c =>
    cases hc
    rw [s.exited_entry]
    exact .inl rfl
  | lock | unlock =>
    cases hc
    exact .inl (by simp [System.effect, System.apply, modifyEntry])
  | update e' u =>
    cases hc
    rw [s.update_entry]
    exact .inl rfl
  | allocate => exact .inr (.inr (.inr ⟨hc, hg.1⟩))
  | loadEntry =>
    cases hc
    refine .inr (.inr (.inl ⟨?_, ?_⟩))
    · simp [System.effect, System.apply, System.addEntry]
    · rw [hi.freshEntry _ le_rfl]
      rfl
  | remove | runtimeStart => exact .inl rfl
  | _ => exact hc.elim

structure Addressed (s : System) : Prop where
  leased : Leased s
  mac : s.Records VM.HasMac
  /-- Until Load is done no Create runs and the addresses in the records are on file. -/
  listed : s.serving = false → (∀ e, (s.entries e).owner = none) ∧ s.Records (VM.Listed s.host.networksFile)
  /-- The address of a record is leased, unless the Create of the VM has given the lease back. -/
  agrees : ∀ e ip, s.Present e → (s.record e).state ≠ .deleting → (s.record e).ip = some ip →
    (∀ t, (s.entries e).owner = some t → (s.books t).released = false) → ∃ n, s.lease e = some (n, ip)

namespace Addressed

theorem mac_effect (h : Addressed s) (hi : Inv s) (hg : op.Guard cfg s t) :
    (s.effect t op).Records VM.HasMac := by
  refine h.mac.effect hi hg (fun id m cid spec _ ip hip => ?_) (fun r hr => hr.loaded)
    fun e u hw ha hr ip hip => ?_
  · cases hip
  · rw [VM.update_spec]
    rcases (s.record e).update_address s.clock u with ⟨h1, h2⟩ | ⟨ip', mac, rfl⟩
    · rw [h2]
      exact hr ip (h1 ▸ hip)
    · rcases Op.writes_cases hw with rfl | ⟨phase, hs, rfl, hu⟩ | ⟨_, _, _, _, -, hu⟩
      · cases hip
        exact hg.2.2.2.2
      · cases phase <;> cases hu
      · cases hu

theorem listed_effect (h : Addressed s) (hi : Inv s) (hg : op.Guard cfg s t)
    (hs : (s.effect t op).serving = false) : (∀ e, ((s.effect t op).entries e).owner = none) ∧
      (s.effect t op).Records (VM.Listed (s.effect t op).host.networksFile) := by
  have hs : s.serving = false := by
    by_contra hn
    have hserv := Inv.serving_mono s t op (by simpa using hn)
    cases hs.symm.trans hserv
  obtain ⟨howner, hrec⟩ := h.listed hs
  rw [networksFile_effect hg hs]
  refine ⟨fun e => ?_, hrec.effect hi hg (fun id m cid spec hop => ?_) (fun r hr => hr.loaded)
    fun e u hw ha hr ip hip => ?_⟩
  · rcases hi.owner_cases hg e with hsame | ⟨hnone, -⟩ | ⟨hnone, -⟩ | ⟨-, hserv⟩
    · exact hsame.trans (howner e)
    · exact hnone
    · exact hnone
    · cases hserv.symm.trans hs
  · subst hop
    cases hg.1.symm.trans hs
  · rw [VM.update_spec, VM.update_id]
    rcases (s.record e).update_address s.clock u with ⟨h1, -⟩ | ⟨ip', mac, rfl⟩
    · exact hr ip (h1 ▸ hip)
    · rcases Op.writes_cases hw with rfl | ⟨phase, hs, rfl, hu⟩ | ⟨_, _, _, _, -, hu⟩
      · cases hg.2.2.1.symm.trans (howner e)
      · cases phase <;> cases hu
      · cases hu

theorem agrees_loaded {r : VM} (h : Addressed s) (hi : Inv s)
    (hg : (Op.loadEntry id r).Guard cfg s t) (hip : r.loaded.ip = some ip) :
    ∃ n, (s.effect t (.loadEntry id r)).lease s.nextEntry = some (n, ip) := by
  obtain ⟨hload, -, hdisk, rfl, -, hrest, -⟩ := hg
  have hs : s.serving = false := by
    by_contra hn
    cases hload.symm.trans (hi.serving (by simpa using hn))
  obtain ⟨st, hst, hname, hlease⟩ := (h.listed hs).2.2 r.id r hdisk ip (r.loaded_address.2.1 ▸ hip)
  obtain ⟨n, hn⟩ := (hrest st hst).2 r.id ip hlease
  refine ⟨n, ?_⟩
  rw [← hn, hname]
  exact Function.update_self ..

theorem unreleased_of_effect (hi : Inv s) (hg : op.Guard cfg s t) (hb : (s.books t).Allows op) (ha : s.Alive e)
    (h : ∀ t', ((s.effect t op).entries e).owner = some t' → ((s.effect t op).books t').released = false) :
    ∀ t', (s.entries e).owner = some t' → (s.books t').released = false := by
  intro t' ho
  rcases hi.owner_cases hg e with hsame | ⟨-, phase, hs, rfl⟩ | ⟨-, hnone⟩ | ⟨rfl, -⟩
  · have hr := h t' (hsame.trans ho)
    by_cases ht : t' = t
    · subst ht
      rw [s.books_effect] at hr
      exact Books.released_mono hr
    · rwa [s.books_other op ht] at hr
  · obtain ⟨-, -, -, -, hready, -⟩ := hg
    cases phase with
    | install =>
      obtain rfl := some.inj (ho.symm.trans hready)
      exact hb.2.1 rfl
    | boot => cases ho.symm.trans hready.1
  · cases ho.symm.trans hnone
  · exact absurd ha hi.not_alive_next

theorem lease_kept (h : Addressed s) (hi : Inv s) (hg : op.Guard cfg s t) (ha : s.Alive e)
    (hdet : ∀ n id, op ≠ .net (.detach e n id)) (hl : s.lease e = some (n, ip)) :
    ∃ n, (s.effect t op).lease e = some (n, ip) := by
  rcases s.lease_cases t op e with hsame | ⟨n', id', ip', rfl, hnew⟩ | ⟨n', id', rfl, -⟩ |
    ⟨-, rfl⟩
  · exact ⟨n, hsame.trans hl⟩
  · obtain ⟨-, -, rfl, net, net', hnet, hat, hname⟩ := hg
    have hold := (h.leased.held e n ip ha hl).attach n' (s.record e).id
    have hgives : (s.nets.attach n' (s.record e).id).Gives n' (s.record e).spec.network
        (s.record e).id ip' := hname ▸ .of_attach hnet hat
    have heq := hold.unique (hi.nets.attach n' _) hgives
    exact ⟨n', by rw [hnew, heq.2]⟩
  · exact absurd rfl (hdet n' id')
  · exact absurd ha hi.not_alive_next

theorem lease_effect (h : Addressed s) (hi : Inv s) (hg : op.Guard cfg s t)
    (hp : (s.effect t op).Present e) (hd : ((s.effect t op).record e).state ≠ .deleting)
    (hip : ((s.effect t op).record e).ip = some ip)
    (hold : s.Present e → (s.record e).state ≠ .deleting → (s.record e).ip = some ip →
      (∃ n, s.lease e = some (n, ip)) ∧ ∀ n id, op ≠ .net (.detach e n id)) :
    ∃ n, (s.effect t op).lease e = some (n, ip) := by
  rcases hi.alive_of_effect hg ((hi.effect hg).vms _ _ hp).1 with ha | ⟨hadd, rfl⟩
  · have hpres := hi.present_mono hg ha hp
    have hlive : (s.record e).state ≠ .deleting := fun hx =>
      hd (hi.deleting_mono hg ha (fun _ _ _ => hpres) hx)
    have hlease : (s.record e).ip = some ip → ∃ n, (s.effect t op).lease e = some (n, ip) := by
      intro hip
      obtain ⟨⟨n, hn⟩, hdet⟩ := hold hpres hlive hip
      exact h.lease_kept hi hg ha hdet hn
    rw [hi.record_effect hg fun _ => (hi.alive_lt ha).ne] at hip
    cases hw : op.writes s e with
    | none =>
      rw [hw] at hip
      exact hlease hip
    | some u =>
      rw [hw] at hip
      rcases (s.record e).update_address s.clock u with ⟨hsame, -⟩ | ⟨ip', mac, rfl⟩
      · exact hlease (hsame ▸ hip)
      · rcases Op.writes_cases hw with rfl | ⟨phase, hs, -, hu⟩ | ⟨_, _, _, _, -, hu⟩
        · cases hip
          exact hg.2.2.2.1
        · cases phase <;> cases hu
        · cases hu
  · rcases Inv.record_added (s := s) (t := t) op hadd with ⟨_, _, _, _, rfl, hr⟩ | ⟨id, r, rfl, hr⟩
    · rw [hr] at hip
      cases hip
    · exact h.agrees_loaded hi hg (hr ▸ hip)

theorem agrees_effect (h : Addressed s) (hi : Inv s) (hg : op.Guard cfg s t) (hb : (s.books t).Allows op)
    (hp : (s.effect t op).Present e) (hd : ((s.effect t op).record e).state ≠ .deleting)
    (hip : ((s.effect t op).record e).ip = some ip)
    (ho : ∀ t', ((s.effect t op).entries e).owner = some t' → ((s.effect t op).books t').released = false) :
    ∃ n, (s.effect t op).lease e = some (n, ip) := by
  refine h.lease_effect hi hg hp hd hip fun hpres hlive hip => ⟨?_, fun n id hop => ?_⟩
  · exact h.agrees e ip hpres hlive hip (unreleased_of_effect hi hg hb (hi.vms _ _ hpres).1 ho)
  · subst hop
    obtain ⟨-, -, -, -, hdel | hown⟩ := hg
    · exact hlive hdel
    · have hr := ho t hown
      rw [s.books_effect] at hr
      cases hr

theorem effect (h : Addressed s) (hi : Inv s) (hg : op.Guard cfg s t) (hb : (s.books t).Allows op)
    (hk : AddressesSafe s (.op t op)) : Addressed (s.effect t op) where
  leased := h.leased.effect hi hg hk
  mac := h.mac_effect hi hg
  listed hs := h.listed_effect hi hg hs
  agrees _ _ hp hd hip ho := h.agrees_effect hi hg hb hp hd hip ho

theorem outside {n : Nat} (h : Addressed s) (hk : AddressesSafe s (.env x))
    (hx : s.outside n x = some s') : Addressed (s'.noting x s) := by
  have hl := h.leased.outside hx
  have hm := h.mac.outside (l := .outside x :: s.hist) hx
  have hbooks := s.books_outside (x := x) s'
  rcases outside_split hx with _ | ⟨hne⟩
  · exact ⟨hl, hm, fun _ => ⟨fun _ => rfl, fun _ ha => absurd rfl ha, hk⟩, fun _ _ hp => absurd hp get_empty_ne⟩
  · exact ⟨hl, hm, h.listed, fun e ip hp hd hip how =>
      h.agrees e ip hp hd hip fun t ht => hbooks hne t ▸ how t ht⟩

theorem initial : Addressed {} :=
  ⟨.initial, .initial, fun _ => ⟨fun _ => rfl, .initial⟩, fun _ _ hp => absurd hp get_empty_ne⟩

end Addressed

theorem Runs.addressed {pool : Pool} (h : Runs cfg AddressesSafe pool) : Addressed pool.shared :=
  Runs.invariant (I := Addressed) .initial (fun _ _ _ hi hI hg hk => hI.effect hi hg hk.1 hk.2)
    (fun _ _ _ _ _ hI hk hx => hI.outside hk.2 hx) h.booked

/-- An operation on the VM is in flight: its lock is taken, or its Create has not got as far as starting
the installer. -/
def System.Busy (s : System) (e : Nat) : Prop := (s.entries e).opMu ≠ none ∨ (s.entries e).owner ≠ none

instance (s : System) (e : Nat) : Decidable (s.Busy e) := inferInstanceAs (Decidable (_ ∨ _))

theorem record_names_lease (cfg : Config) {pool : Pool} (h : Runs cfg AddressesSafe pool)
    (e : Nat) (ip : Network.Addr) (hp : pool.shared.Present e) (hd : (pool.shared.record e).state ≠ .deleting)
    (hb : ¬ pool.shared.Busy e) (hip : (pool.shared.record e).ip = some ip) :
    (∃ n net, pool.shared.nets.get (pool.shared.record e).spec.network = some n ∧
      pool.shared.nets.net n = some net ∧ net.leases.get (pool.shared.record e).id = some ip ∧
      (pool.shared.record e).mac = Network.macFor (pool.shared.record e).spec.network ip) ∧
    ∀ e', pool.shared.Present e' → (pool.shared.record e').state ≠ .deleting →
      ¬ pool.shared.Busy e' → (pool.shared.record e').ip = some ip →
      (pool.shared.record e').spec.network = (pool.shared.record e).spec.network → e' = e := by
  have ha := h.addressed
  have hinv := h.inv
  have gives : ∀ e', pool.shared.Present e' → (pool.shared.record e').state ≠ .deleting →
      ¬ pool.shared.Busy e' → (pool.shared.record e').ip = some ip → ∃ n,
        pool.shared.nets.Gives n (pool.shared.record e').spec.network (pool.shared.record e').id ip := by
    intro e' hp hd hb hip
    have howner : (pool.shared.entries e').owner = none := by
      by_contra hn
      exact hb (.inr hn)
    obtain ⟨n, hn⟩ := ha.agrees e' ip hp hd hip fun t ht => by cases ht.symm.trans howner
    exact ⟨n, ha.leased.held e' n ip (hinv.vms _ _ hp).1 hn⟩
  obtain ⟨n, hn⟩ := gives e hp hd hb hip
  have hget := hn.current hinv.nets
  refine ⟨?_, fun e' hp' hd' hb' hip' hnet => ?_⟩
  · obtain ⟨net, hnet, -, hlease, -⟩ := hn
    exact ⟨n, net, hget, hnet, hlease, ha.mac.1 e (hinv.vms _ _ hp).1 ip hip⟩
  · obtain ⟨n', hn'⟩ := gives e' hp' hd' hb' hip'
    rw [hnet] at hn'
    have hid := hn'.exclusive hinv.nets hn
    exact ha.leased.distinct e' e (hinv.vms _ _ hp').1 (hinv.vms _ _ hp).1 hid

instance (file : List Network.State) (r : VM) : Decidable (r.Listed file) := by
  unfold VM.Listed
  infer_instance

instance : ∀ ev, Decidable (AddressesSafe s ev)
  | .op .. | .call _ => by delta AddressesSafe; infer_instance
  | .env x => by induction x using Outside.casesOn <;> delta AddressesSafe <;> infer_instance

theorem record_names_lease_restarted : ∃ pool, Runs Sample.config AddressesSafe pool ∧ (pool.shared.Present 1 ∧
      (pool.shared.record 1).state ≠ .deleting ∧ ¬ pool.shared.Busy 1 ∧ (pool.shared.record 1).ip = some Sample.guest) ∧
      ∃ n net, pool.shared.nets.get (pool.shared.record 1).spec.network = some n ∧ pool.shared.nets.net n = some net ∧
        net.leases.get (pool.shared.record 1).id = some Sample.guest := by
  refine Runs.witness (Sample.withNetwork ++
    Sample.creates 2 { name := "one", network := "a" } "01" ++ Sample.oks 2 2 ++ Sample.restarts 4) (by decide +kernel)
    fun pool hrun hp => ?_
  obtain ⟨n, net, hn, hnet, hlease, -⟩ :=
    (record_names_lease Sample.config hrun 1 Sample.guest hp.1 hp.2.1 hp.2.2.1 hp.2.2.2).1
  exact ⟨n, net, hn, hnet, hlease⟩

namespace Sample

/-- vm-manager ends when a Create has written the address to vm.json and not yet networks.json. After the
restart another VM gets the address. -/
def leaseLost : List Move :=
  withNetwork ++ [.call (.create { name := "one", network := "a" }), .go 2 .ok,
      .go 2 (.ids "01" "machine")] ++ oks 2 2 ++ [.go 2 (.ids "key" "")] ++ oks 2 6 ++
    [.env .crash, .env .start] ++ oks 3 10 ++ creates 4 { name := "two", network := "a" } "02" ++ oks 4 2

end Sample
open Sample

theorem crash_loses_lease : ∃ pool, Runs config (fun _ _ => True) pool ∧ pool.shared.Present 1 ∧
      pool.shared.Present 2 ∧ (pool.shared.record 1).state = .failed ∧
      (pool.shared.record 2).state = .installing ∧ ¬ pool.shared.Busy 1 ∧ ¬ pool.shared.Busy 2 ∧
      (pool.shared.record 1).ip = some Sample.guest ∧ (pool.shared.record 2).ip = some Sample.guest ∧
      (pool.shared.record 1).spec.network = (pool.shared.record 2).spec.network ∧
      pool.shared.nets.leaseOf (pool.shared.record 1).spec.network (pool.shared.record 1).id = none :=
  Runs.sample leaseLost (by decide +kernel)

/-- A network is added only if its block has no address in common with another's, and an address that a
record has is given back only when the VM is deleted. -/
def Op.KeepsApart (s : System) : Op → Prop
  | .net (.add spec _) => ∀ name n, s.nets.find name = some n → spec.cidr.Apart n.spec.cidr
  | .net (.detach e _ _) => (s.record e).state = .deleting ∨ (s.record e).ip = none
  | _ => True

def NetworksApart (s : System) (ev : Event) : Prop :=
  AddressesSafe s ev ∧ ∀ t o, ev = .op t o → o.KeepsApart s

structure Apart (s : System) : Prop where
  addressed : Addressed s
  separate : s.nets.Separate
  kept : ∀ e ip, s.Present e → (s.record e).state ≠ .deleting → (s.record e).ip = some ip →
    ∃ n, s.lease e = some (n, ip)

namespace Apart

theorem separate_effect (h : Apart s) (hi : Inv s) (hg : op.Guard cfg s t) (hk : op.KeepsApart s) :
    (s.effect t op).nets.Separate := by
  cases op with
  | net o =>
    cases o with
    | attach e n id ip => exact h.separate.attach n id
    | detach e n id => exact h.separate.detach n id
    | add spec leases => exact h.separate.add hi.nets (add_nets hg) hk
    | delete name n clean => exact h.separate.delete name n
    | _ => exact h.separate
  | _ => exact h.separate

theorem effect (h : Apart s) (hi : Inv s) (hg : op.Guard cfg s t) (hb : (s.books t).Allows op)
    (hk : NetworksApart s (.op t op)) : Apart (s.effect t op) where
  addressed := h.addressed.effect hi hg hb hk.1
  separate := h.separate_effect hi hg (hk.2 t op rfl)
  kept e ip hp hd hip := by
    refine h.addressed.lease_effect hi hg hp hd hip fun hpres hlive hip => ⟨?_, fun n id hop => ?_⟩
    · exact h.kept e ip hpres hlive hip
    · subst hop
      rcases hk.2 t _ rfl with hdel | hnone
      · exact hlive hdel
      · cases hip.symm.trans hnone

theorem outside {n : Nat} (h : Apart s) (hk : NetworksApart s (.env x))
    (hx : s.outside n x = some s') : Apart (s'.noting x s) := by
  have ha := h.addressed.outside hk.1 hx
  rcases outside_split hx with _ | _
  · exact ⟨ha, .empty, fun _ _ hp => absurd hp get_empty_ne⟩
  · exact ⟨ha, h.separate, h.kept⟩

theorem initial : Apart {} := ⟨.initial, .empty, fun _ _ hp => absurd hp get_empty_ne⟩

end Apart

theorem System.mem_lookupByIP (h : e ∈ s.lookupByIP ip) : (∃ id, s.vms.get id = some e) ∧
    (s.record e).ip = some ip ∧ (s.record e).state ≠ .deleting := by
  obtain ⟨hmem, hcond⟩ := mem_filter.1 h
  obtain ⟨x, hx, rfl⟩ := List.mem_map.1 hmem
  rw [Bool.and_eq_true, beq_iff_eq, bne_iff_ne] at hcond
  exact ⟨⟨x.1, get_eq_some_iff.2 hx⟩, hcond⟩

/-- Metadata server `k` may get a request from `x`: it is up, and a guest of its network has the
address. -/
def System.Hears (s : System) (k : Nat) (net : Network.Net) (x : Network.Addr) : Prop :=
  (s.imds.all k).isShut = false ∧ s.nets.net (s.imds.all k).net = some net ∧ net.closed = false ∧
    ∃ id, net.leases.get id = some x

theorem lookup_stays_in_network (cfg : Config) {pool : Pool}
    (h : Runs cfg NetworksApart pool) (k : Nat) (net : Network.Net) (x : Network.Addr)
    (hk : pool.shared.Hears k net x) (e : Nat) (he : e ∈ pool.shared.lookupByIP x) :
    (pool.shared.record e).spec.network = net.spec.name ∧
      net.leases.get (pool.shared.record e).id = some x := by
  have ha : Apart pool.shared :=
    Runs.invariant (I := Apart) .initial (fun _ _ _ hi hI hg hk => hI.effect hi hg hk.1 hk.2)
      (fun _ _ _ _ _ hI hk hx => hI.outside hk.2 hx) h.booked
  have hinv := h.inv
  obtain ⟨-, hnet, hopen, id, hid⟩ := hk
  obtain ⟨⟨id', hv⟩, hip, hd⟩ := mem_lookupByIP he
  obtain ⟨halive, rfl⟩ := hinv.vms id' e hv
  obtain ⟨n, hn⟩ := ha.kept e x hv hd hip
  have hgives := ha.addressed.leased.held e n x halive hn
  have hhears : pool.shared.nets.Gives (pool.shared.imds.all k).net net.spec.name id x := ⟨net, hnet, hopen, hid, rfl⟩
  obtain rfl := ha.separate.ref_eq hinv.nets hgives hhears
  obtain ⟨net', hnet', -, hlease, hname⟩ := hgives
  obtain rfl := some.inj (hnet.symm.trans hnet')
  exact ⟨hname.symm, hlease⟩

instance : Decidable (op.KeepsApart s) := by
  unfold Op.KeepsApart
  split
  · rename_i spec leases
    refine decidable_of_iff (∀ name ref, s.nets.byName.get name = some ref → ∀ n, s.nets.net ref = some n →
      spec.cidr.Apart n.spec.cidr) ⟨fun h name n hn => ?_, fun h name ref hr n hn => ?_⟩
    · obtain ⟨ref, hr, hn⟩ := bind_eq_some_iff.1 hn
      exact h name ref hr n hn
    · exact h name n (bind_eq_some_iff.2 ⟨ref, hr, hn⟩)
  · infer_instance
  · infer_instance

instance (ev : Event) : Decidable (NetworksApart s ev) :=
  match ev with
  | .op t o => decidable_of_iff (AddressesSafe s (.op t o) ∧ o.KeepsApart s)
    ⟨fun h => ⟨h.1, fun _ _ ho => by cases ho; exact h.2⟩, fun h => ⟨h.1, h.2 t o rfl⟩⟩
  | .call _ | .env _ => decidable_of_iff (AddressesSafe s _) ⟨fun h => ⟨h, fun _ _ ho => by cases ho⟩, And.left⟩

def System.hears (s : System) (k : Nat) (name id : String) (x : Network.Addr) : Bool :=
  !(s.imds.all k).isShut && (s.nets.net (s.imds.all k).net).any fun net =>
    net.spec.name == name && !net.closed && net.leases.get id == some x

theorem System.Hears.of_hears {k : Nat} {name : String} {x : Network.Addr}
    (h : s.hears k name id x = true) : ∃ net, s.Hears k net x ∧ net.spec.name = name := by
  obtain ⟨hup, hnet⟩ := Bool.and_eq_true_iff.1 h
  cases hn : s.nets.net (s.imds.all k).net with
  | none =>
    rw [hn] at hnet
    cases hnet
  | some net =>
    rw [hn, any_some] at hnet
    simp only [Bool.and_eq_true, Bool.not_eq_true', beq_iff_eq] at hup hnet
    exact ⟨net, ⟨hup, hn, hnet.1.2, id, hnet.2⟩, hnet.1.1⟩

namespace Sample

def onTwoNetworks (cidr : Network.Prefix) : List Move :=
  withNetwork ++ [.call (.createNetwork { name := "b", cidr })] ++ oks 2 7 ++
    creates 3 { name := "one", network := "a" } "01" ++ creates 4 { name := "two", network := "b" } "02"

end Sample

theorem lookup_stays_in_network_apart :
    ∃ pool net net', Runs config NetworksApart pool ∧ pool.shared.Hears 0 net Sample.guest ∧
      pool.shared.Hears 1 net' 0x0a000102 ∧ 0 ∈ pool.shared.lookupByIP Sample.guest ∧
      1 ∈ pool.shared.lookupByIP 0x0a000102 ∧ (pool.shared.record 0).spec.network = net.spec.name ∧
      (pool.shared.record 1).spec.network = net'.spec.name := by
  obtain ⟨pool, hrun, hh, hh', hmem, hmem'⟩ := Runs.sample (K := NetworksApart) (z := {})
    (P := fun p => p.shared.hears 0 "a" "01" Sample.guest = true ∧ p.shared.hears 1 "b" "02" 0x0a000102 = true ∧
      0 ∈ p.shared.lookupByIP Sample.guest ∧ 1 ∈ p.shared.lookupByIP 0x0a000102) (onTwoNetworks ⟨0x0a000100, 24⟩) (by decide +kernel)
  obtain ⟨net, hnet, -⟩ := Hears.of_hears hh
  obtain ⟨net', hnet', -⟩ := Hears.of_hears hh'
  exact ⟨pool, net, net', hrun, hnet, hnet', hmem, hmem',
    (lookup_stays_in_network config hrun 0 net _ hnet 0 hmem).1,
    (lookup_stays_in_network config hrun 1 net' _ hnet' 1 hmem').1⟩

theorem lookup_crosses_networks :
    ∃ pool net, Runs config (fun _ _ => True) pool ∧ pool.shared.Hears 0 net Sample.guest ∧
      net.spec.name = "a" ∧ 1 ∈ pool.shared.lookupByIP Sample.guest ∧
      (pool.shared.record 1).spec.network = "b" := by
  obtain ⟨pool, hrun, hh, hmem, hname⟩ := Runs.sample (K := fun _ _ => True) (z := {})
    (P := fun p => p.shared.hears 0 "a" "01" Sample.guest = true ∧ 1 ∈ p.shared.lookupByIP Sample.guest ∧
      (p.shared.record 1).spec.network = "b") (onTwoNetworks ⟨0x0a000000, 24⟩) (by decide +kernel)
  obtain ⟨net, hnet, ha⟩ := Hears.of_hears hh
  exact ⟨pool, net, hrun, hnet, ha, hmem, hname⟩

end VmManager.Vm
