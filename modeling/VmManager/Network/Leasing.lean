import VmManager.Network.Consistency

/-! The lease table of a network over any sequence of calls: addresses are handed out once and lowest
first, the MAC of an address is its own, the static table of the DHCP server knows it, and a network
rebuilt from its snapshot has the same leases. -/
namespace VmManager
open List GoMap Option Nat
namespace Network
variable {spec : Spec} {l : Layout} {n n' : Net} {id : String} {ip : Addr}

theorem resolve_layout (h : resolve spec = .ok l) :
    spec.cidr.bits ≤ 29 ∧ l.host + 1 = l.broadcast ∧ l.network < l.gateway ∧ l.gateway < l.host := by
  have hsize : spec.cidr.bits ≤ 29 → 8 ≤ 2 ^ (32 - spec.cidr.bits) := by
    intro hbits
    calc 8 = 2 ^ 3 := rfl
      _ ≤ 2 ^ (32 - spec.cidr.bits) := Nat.pow_le_pow_right (by decide) (by omega)
  unfold resolve at h
  simp only [bind, Except.bind, pure, Except.pure, throw, throwThe, MonadExceptOf.throw] at h
  repeat' split at h
  all_goals cases h
  all_goals
    have hle : spec.cidr.bits ≤ 29 := by
      simp only [maxPrefixBits] at *
      omega
    have h8 := hsize hle
    dsimp only [Addr] at *
    omega

theorem Layout.mem_pool_iff (h : resolve spec = .ok l) :
    ip ∈ l.pool ↔ l.network < ip ∧ ip < l.host ∧ ip ≠ l.gateway := by
  obtain ⟨-, hhost, hlow, hhigh⟩ := resolve_layout h
  simp only [Layout.pool, mem_filter, List.mem_map, mem_range, Bool.and_eq_true, bne_iff_ne]
  dsimp only [Addr] at *
  constructor
  · omega
  · rintro ⟨h1, h2, h3⟩
    exact ⟨⟨ip - l.network - 1, by omega, by omega⟩, h3, by omega⟩

theorem Layout.pool_sorted (l : Layout) : l.pool.Pairwise (· < ·) := by
  refine List.Pairwise.filter _ (pairwise_map.2 (pairwise_lt_range.imp fun h => ?_))
  dsimp only [Addr]
  omega

theorem Layout.pool_length (h : resolve spec = .ok l) : l.pool.length = spec.cidr.poolSize := by
  obtain ⟨hbits, hhost, hlow, hhigh⟩ := resolve_layout h
  obtain ⟨hfirst, hlast⟩ := resolve_ok h
  have hperm : (l.gateway :: l.host :: l.pool).Perm
      ((range (l.broadcast - l.network - 1)).map fun i => l.network + 1 + i) := by
    rw [perm_ext_iff_of_nodup]
    · intro ip
      rw [mem_cons, mem_cons, mem_pool_iff h, List.mem_map]
      simp only [mem_range]
      dsimp only [Addr] at *
      constructor
      · intro hip
        exact ⟨ip - l.network - 1, by omega, by omega⟩
      · omega
    · rw [nodup_cons, nodup_cons, mem_cons, mem_pool_iff h, mem_pool_iff h]
      dsimp only [Addr] at *
      exact ⟨by omega, by omega, l.pool_sorted.imp Nat.ne_of_lt⟩
    · exact nodup_range.map fun a b hab => Nat.add_left_cancel hab
  have hlen := hperm.length_eq
  rw [length_cons, length_cons, length_map, length_range] at hlen
  rw [Prefix.poolSize, ← Prefix.size]
  dsimp only [Addr] at *
  omega

theorem macFor_inj {name : String} {ip ip' : Addr} (hip : ip < 2 ^ 32) (hip' : ip' < 2 ^ 32)
    (h : macFor name ip = macFor name ip') : ip = ip' := by
  simp only [macFor, cons.injEq, and_true, true_and, reducePow] at h hip hip'
  dsimp only [Addr] at *
  omega

theorem broadcast_lt (h : resolve spec = .ok l) (hv4 : spec.cidr.addr < 2 ^ 32) :
    l.broadcast < 2 ^ 32 := by
  obtain ⟨hbits, -⟩ := resolve_layout h
  obtain ⟨-, hlast⟩ := resolve_ok h
  have hpow : 2 ^ spec.cidr.bits * spec.cidr.size = 2 ^ 32 := by
    rw [Prefix.size, ← Nat.pow_add]
    congr 1
    omega
  have hpos : 0 < spec.cidr.size := Nat.two_pow_pos _
  have hblock : spec.cidr.addr / spec.cidr.size < 2 ^ spec.cidr.bits := by
    rw [Nat.div_lt_iff_lt_mul hpos, hpow]
    exact hv4
  have hend : (spec.cidr.addr / spec.cidr.size + 1) * spec.cidr.size ≤ 2 ^ 32 := by
    rw [← hpow]
    exact Nat.mul_le_mul_right _ hblock
  rw [Nat.add_mul, Nat.one_mul] at hend
  rw [Prefix.first] at hlast
  dsimp only [Addr] at *
  omega

theorem staticLeases_get (spec : Spec) (l : Layout) (ip : Addr) : (staticLeases spec l).get ip =
      if ip = l.broadcast ∨ ip = l.host ∨ ip ∈ l.pool then some (macFor spec.name ip) else none := by
  rw [staticLeases, get_insert, get_insert, get_foldl_insert (fun ip => macFor spec.name ip), get_empty]
  by_cases hb : ip = l.broadcast
  · simp [hb]
  rw [if_neg hb]
  by_cases hh : ip = l.host
  · rw [if_pos hh, if_pos (.inr (.inl hh)), hh]
  simp [hb, hh]

theorem staticLeases_exact (h : resolve spec = .ok l) (hv4 : spec.cidr.addr < 2 ^ 32)
    (hip : ip ∈ l.pool) : (staticLeases spec l).get ip = some (macFor spec.name ip) ∧
      ∀ ip', (staticLeases spec l).get ip' = some (macFor spec.name ip) → ip' = ip := by
  have hlast := broadcast_lt h hv4
  obtain ⟨-, hhost, -⟩ := resolve_layout h
  have hbound : ∀ ip', ip' = l.broadcast ∨ ip' = l.host ∨ ip' ∈ l.pool → ip' < 2 ^ 32 := by
    intro ip' hin
    have hle : ip' ≤ l.broadcast := by
      rcases hin with rfl | rfl | hin
      · exact Nat.le_refl _
      · exact Nat.le_of_lt (lt_of_succ_le (Nat.le_of_eq hhost))
      · exact Nat.le_of_lt (Layout.mem_pool hin).2
    exact Nat.lt_of_le_of_lt hle hlast
  refine ⟨(staticLeases_get ..).trans (if_pos (.inr (.inr hip))), fun ip' hget => ?_⟩
  rw [staticLeases_get] at hget
  split at hget
  · rename_i hin
    exact macFor_inj (hbound ip' hin) (hbound ip (.inr (.inr hip))) (some.inj hget)
  · cases hget

/-- The calls of a network; `live` says that the context of an Attach has not ended. -/
inductive NetCall where
  | attach (vmID : String) (live : Bool)
  | detach (vmID : String)
  | state
  | close
  | rebuild

/-- The network after a call. `rebuild` is Restore of its snapshot. -/
def Net.call (n : Net) : NetCall → Net
  | .attach vmID live => match live, n.attach vmID with
    | true, .ok (_, n') => n'
    | _, _ => n
  | .detach vmID => n.detach vmID
  | .state => n
  | .close => { n with closed := true }
  | .rebuild => (newNetwork n.state.spec n.state.leases).toOption.getD n

namespace Net

structure Leasing (n : Net) : Prop where
  sound : n.Sound
  named : n.leases.get "" = none

theorem values_nodup (h : n.Exclusive) : (n.leases.entries.map fun e => e.2).Nodup := by
  refine Nodup.map_on (fun a ha b hb hab => ?_) (Nodup.of_map _ n.leases.nodupKeys)
  obtain ⟨id, ip⟩ := a
  obtain ⟨id', ip'⟩ := b
  cases hab
  cases h id id' ip (get_eq_some_iff.2 ha) (get_eq_some_iff.2 hb)
  rfl

theorem Leasing.newNetwork (h : n.Leasing) :
    newNetwork n.state.spec n.state.leases = .ok { n with closed := false } := by
  have hparse : parseLeases n.layout n.leases = .ok n.leases := by
    unfold parseLeases
    rw [if_neg, if_neg, if_pos (values_nodup h.sound.exclusive)]
    · intro hany
      obtain ⟨⟨id, ip⟩, he, hout⟩ := List.any_eq_true.1 hany
      have hin := h.sound.pooled id ip (get_eq_some_iff.2 he)
      simp [hin] at hout
    · intro hany
      obtain ⟨⟨id, ip⟩, he, hempty⟩ := List.any_eq_true.1 hany
      cases beq_iff_eq.1 hempty
      cases h.named.symm.trans (get_eq_some_iff.2 he)
  simp only [Network.newNetwork, state, h.sound.laid, bind, Except.bind, hparse, pure, Except.pure]

theorem Leasing.call (h : n.Leasing) (c : NetCall) : (n.call c).Leasing := by
  cases c with
  | attach vmID live =>
    cases live with
    | false => exact h
    | true =>
      simp only [Net.call]
      cases ha : n.attach vmID with
      | error err => exact h
      | ok x =>
        obtain ⟨ip, n'⟩ := x
        have hat := attach_ok ha
        refine ⟨hat.sound h.sound, ?_⟩
        have hne : "" ≠ vmID := by
          intro heq
          rw [attach, if_pos heq.symm] at ha
          cases ha
        exact (hat.others "" hne).trans h.named
  | detach vmID =>
    refine ⟨detach_sound h.sound, ?_⟩
    rw [Net.call, detach_get, h.named, ite_self]
  | state => exact h
  | close => exact ⟨⟨h.sound.laid, h.sound.exclusive, h.sound.pooled⟩, h.named⟩
  | rebuild =>
    simp only [Net.call, h.newNetwork, Except.toOption, getD_some]
    exact ⟨⟨h.sound.laid, h.sound.exclusive, h.sound.pooled⟩, h.named⟩

theorem call_spec (h : n.Leasing) (c : NetCall) : (n.call c).spec = n.spec := by
  cases c with
  | attach vmID live =>
    cases live with
    | false => rfl
    | true =>
      simp only [Net.call]
      cases ha : n.attach vmID with
      | error err => rfl
      | ok x => exact (attach_ok ha).spec
  | rebuild =>
    simp only [Net.call, h.newNetwork, Except.toOption, getD_some]
  | _ => rfl

theorem call_lease (h : n.Leasing) (c : NetCall) (hne : c ≠ .detach id)
    (hl : n.leases.get id = some ip) : (n.call c).leases.get id = some ip := by
  cases c with
  | attach vmID live =>
    cases live with
    | false => exact hl
    | true =>
      simp only [Net.call]
      cases ha : n.attach vmID with
      | error err => exact hl
      | ok x => exact (attach_ok ha).mono hl
  | detach vmID =>
    rw [Net.call, detach_get, if_neg fun heq => hne (by rw [heq])]
    exact hl
  | rebuild =>
    simp only [Net.call, h.newNetwork, Except.toOption, getD_some]
    exact hl
  | _ => exact hl

def Full (n : Net) : Prop := ∀ ip ∈ n.layout.pool, ∃ id, n.leases.get id = some ip

theorem leased_iff : (n.leases.entries.any fun x => x.2 == ip) = true ↔
    ∃ id, n.leases.get id = some ip := by
  rw [List.any_eq_true]
  constructor
  · rintro ⟨⟨id, ip'⟩, he, heq⟩
    cases beq_iff_eq.1 heq
    exact ⟨id, get_eq_some_iff.2 he⟩
  · rintro ⟨id, hl⟩
    exact ⟨⟨id, ip⟩, get_eq_some_iff.1 hl, beq_self_eq_true ip⟩

theorem freeAddr_none : n.freeAddr = none ↔ n.Full := by
  rw [freeAddr, find?_eq_none]
  simp only [Bool.not_eq_true', Bool.not_eq_false, leased_iff]
  exact Iff.rfl

theorem freeAddr_lowest (h : n.freeAddr = some ip) : ip ∈ n.layout.pool ∧ (∀ id, n.leases.get id ≠ some ip) ∧
    ∀ ip' ∈ n.layout.pool, ip' < ip → ∃ id, n.leases.get id = some ip' := by
  refine ⟨mem_of_find?_eq_some h, freeAddr_free h, fun ip' hin hlt => ?_⟩
  obtain ⟨-, before, after, hpool, htaken⟩ := find?_eq_some_iff_append.1 h
  rw [hpool] at hin
  have hsorted := n.layout.pool_sorted
  rw [hpool] at hsorted
  have hbefore : ip' ∈ before := by
    rcases mem_append.1 hin with hin | hin
    · exact hin
    · rcases mem_cons.1 hin with rfl | hin
      · exact absurd hlt (Nat.lt_irrefl _)
      · have hgt := rel_of_pairwise_cons (pairwise_append.1 hsorted).2.1 hin
        exact absurd (Nat.lt_trans hlt hgt) (Nat.lt_irrefl _)
  have hused := htaken ip' hbefore
  simp only [Bool.not_not] at hused
  exact leased_iff.1 hused

theorem Leasing.full_iff (h : n.Leasing) :
    n.Full ↔ n.leases.entries.length = n.spec.cidr.poolSize := by
  have hsub : (n.leases.entries.map fun e => e.2).Subperm n.layout.pool := by
    refine subperm_of_subset (values_nodup h.sound.exclusive) fun ip hip => ?_
    obtain ⟨⟨id, ip'⟩, he, rfl⟩ := List.mem_map.1 hip
    exact h.sound.pooled id ip' (get_eq_some_iff.2 he)
  have hle := hsub.length_le
  rw [length_map] at hle
  rw [← Layout.pool_length h.sound.laid]
  constructor
  · intro hfull
    have hpool : n.layout.pool.Subperm (n.leases.entries.map fun e => e.2) := by
      refine subperm_of_subset (n.layout.pool_sorted.imp Nat.ne_of_lt) fun ip hip => ?_
      obtain ⟨id, hl⟩ := hfull ip hip
      exact List.mem_map.2 ⟨_, get_eq_some_iff.1 hl, rfl⟩
    have hge := hpool.length_le
    rw [length_map] at hge
    exact Nat.le_antisymm hle hge
  · intro hlen ip hip
    have hperm := hsub.perm_of_length_le (by rw [length_map, hlen])
    obtain ⟨⟨id, ip'⟩, he, rfl⟩ := List.mem_map.1 (hperm.mem_iff.2 hip)
    exact ⟨id, get_eq_some_iff.2 he⟩

theorem attach_leased (h : n.Leasing) (hopen : n.closed = false) (hl : n.leases.get id = some ip) :
    n.attach id = .ok (ip, n) := by
  have hne : id ≠ "" := by
    rintro rfl
    cases h.named.symm.trans hl
  simp [attach, hne, hopen, hl]

theorem attach_new (hopen : n.closed = false) (hne : id ≠ "") (hl : n.leases.get id = none) :
    (∃ err, n.attach id = .error err) ↔ n.Full := by
  rw [← freeAddr_none]
  simp only [attach, hne, hopen, hl, if_false, Bool.false_eq_true]
  cases n.freeAddr <;> simp

end Net

structure LeaseTable (n : Net) : Prop where
  injective : ∀ id id' ip, n.leases.get id = some ip → n.leases.get id' = some ip → id = id'
  pooled : ∀ id ip, n.leases.get id = some ip → ip ∈ n.layout.pool
  kept : ∀ id ip c, n.leases.get id = some ip → c ≠ .detach id → (n.call c).leases.get id = some ip
  again : ∀ id ip, n.leases.get id = some ip → n.closed = false → n.attach id = .ok (ip, n)
  lowest : ∀ id ip n', n.leases.get id = none → n.attach id = .ok (ip, n') →
    ip ∈ n.layout.pool ∧ (∀ id', n.leases.get id' ≠ some ip) ∧
    (∀ ip' ∈ n.layout.pool, ip' < ip → ∃ id', n.leases.get id' = some ip') ∧ n'.leases.get id = some ip
  fails : ∀ id, n.leases.get id = none → n.closed = false → id ≠ "" →
    ((∃ err, n.attach id = .error err) ↔ n.Full)
  full : n.Full ↔ n.leases.entries.length = n.spec.cidr.poolSize
  mac : ∀ id id' ip ip', n.leases.get id = some ip → n.leases.get id' = some ip' → ip ≠ ip' →
    (n.attachment id ip).mac ≠ (n.attachment id' ip').mac
  static : ∀ id ip, n.leases.get id = some ip →
    (configuration n.spec n.layout).dhcpStaticLeases.get ip = some (n.attachment id ip).mac ∧
    ∀ ip', (configuration n.spec n.layout).dhcpStaticLeases.get ip' = some (n.attachment id ip).mac → ip' = ip
  restores : ∀ m : Manager, m.get n.spec.name = none → ∃ m' n', m.restore [n.state] = .ok m' ∧
    m'.find n.spec.name = some n' ∧ n'.spec = n.spec ∧ n'.leases = n.leases

theorem Net.Leasing.table (h : n.Leasing) (hv4 : n.spec.cidr.addr < 2 ^ 32) : LeaseTable n where
  injective := h.sound.exclusive
  pooled := h.sound.pooled
  kept _ _ c hl hne := Net.call_lease h c hne hl
  again _ _ hl hopen := Net.attach_leased h hopen hl
  lowest id ip n' hnone ha := by
    have hat := Net.attach_ok ha
    have hfree : n.freeAddr = some ip := by
      unfold Net.attach at ha
      split at ha
      · cases ha
      split at ha
      · cases ha
      rw [hnone] at ha
      dsimp only at ha
      split at ha <;> cases ha
      rename_i hfree
      exact hfree
    obtain ⟨hin, hnew, hlow⟩ := Net.freeAddr_lowest hfree
    exact ⟨hin, hnew, hlow, hat.lease⟩
  fails _ hnone hopen hne := Net.attach_new hopen hne hnone
  full := h.full_iff
  mac id id' ip ip' hl hl' hne heq := by
    have hexact := staticLeases_exact h.sound.laid hv4 (h.sound.pooled id ip hl)
    have hget := (staticLeases_exact h.sound.laid hv4 (h.sound.pooled id' ip' hl')).1
    exact hne (hexact.2 ip' (hget.trans (congrArg some heq.symm))).symm
  static id ip hl := staticLeases_exact h.sound.laid hv4 (h.sound.pooled id ip hl)
  restores m hm := by
    have hfree : (m.byName.get n.state.spec.name).isSome = false := by
      rw [show m.byName.get n.state.spec.name = none from hm]
      rfl
    let m' : Manager :=
      { byName := m.byName.insert n.spec.name m.next
        heap := Function.update m.heap m.next (some { n with closed := false })
        next := m.next + 1 }
    have hadd : m.add n.state.spec n.state.leases = .ok m' := by
      rw [Manager.add, hfree, h.newNetwork]
      rfl
    refine ⟨m', { n with closed := false }, ?_, ?_, rfl, rfl⟩
    · rw [Manager.restore, hadd]
      rfl
    · simp [m', Manager.find, Manager.get, Manager.net, get_insert]

theorem lease_table {spec : Spec} {l : Layout} (hr : resolve spec = .ok l)
    (hv4 : spec.cidr.addr < 2 ^ 32) : ∃ n₀, newNetwork spec ∅ = .ok n₀ ∧
      ∀ calls : List NetCall, LeaseTable (calls.foldl Net.call n₀) := by
  have hnew : newNetwork spec ∅ = .ok { spec, layout := l } := by
    simp only [newNetwork, hr, bind, Except.bind]
    rfl
  have hstart : Net.Leasing { spec, layout := l } := ⟨(newNetwork_ok hnew).2.2.2, GoMap.get_empty _⟩
  have hrun : ∀ (calls : List NetCall) (n : Net), n.Leasing →
      (calls.foldl Net.call n).Leasing ∧ (calls.foldl Net.call n).spec = n.spec := by
    intro calls
    induction calls with
    | nil => exact fun n h => ⟨h, rfl⟩
    | cons c calls ih =>
      intro n h
      obtain ⟨hleasing, hspec⟩ := ih (n.call c) (h.call c)
      exact ⟨hleasing, hspec.trans (Net.call_spec h c)⟩
  refine ⟨_, hnew, fun calls => ?_⟩
  obtain ⟨hleasing, hspec⟩ := hrun calls _ hstart
  exact hleasing.table (by rw [hspec]; exact hv4)

theorem lease_table_small : ∃ n₀,
    newNetwork { name := "a", cidr := ⟨0x0a000000, 29⟩, gatewayIP := some 0x0a000002 } ∅ = .ok n₀ ∧
    ∀ calls : List NetCall, LeaseTable (calls.foldl Net.call n₀) :=
  lease_table (l := ⟨0x0a000000, 0x0a000002, 0x0a000006, 0x0a000007⟩) (by decide +kernel) (by decide)

end Network

end VmManager
