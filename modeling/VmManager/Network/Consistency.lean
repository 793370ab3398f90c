import Mathlib.Data.String.Basic
import VmManager.Network.Manager

/-! The tables of the network manager agree: a name leads to the open network of that name, an open
network is found under its name, and no two VMs of a network have one address. Every operation of the
manager keeps this, and no network object is lost. -/
namespace VmManager.Network
open List Option GoMap Function
variable {ref' : Nat} {id' : String} {l : Layout} {ip' : Addr}

def Net.Exclusive (n : Net) : Prop := ∀ id id' ip, n.leases.get id = some ip → n.leases.get id' = some ip → id = id'

/-- The addresses of a network are those of its specification, and a lease is one of the pool that no
other VM holds. -/
structure Net.Sound (n : Net) : Prop where
  laid : resolve n.spec = .ok n.layout
  exclusive : n.Exclusive
  pooled : ∀ id ip, n.leases.get id = some ip → ip ∈ n.layout.pool

structure Manager.Consistent (m : Manager) : Prop where
  named : ∀ name ref, m.get name = some ref → ∃ n, m.net ref = some n ∧ n.spec.name = name ∧ n.closed = false
  current : ∀ ref n, m.net ref = some n → n.closed = false → m.get n.spec.name = some ref
  fresh : ∀ ref, m.next ≤ ref → m.net ref = none
  sound : ∀ ref n, m.net ref = some n → n.Sound

def Manager.Keeps (m m' : Manager) : Prop := ∀ ref n, m.net ref = some n → ∃ n', m'.net ref = some n' ∧ n'.spec = n.spec

def Prefix.size (p : Prefix) : Nat := 2 ^ (32 - p.bits)

def Prefix.first (p : Prefix) : Addr := p.addr / p.size * p.size

def Prefix.Apart (p q : Prefix) : Prop := p.first + p.size ≤ q.first ∨ q.first + q.size ≤ p.first

instance (p q : Prefix) : Decidable (p.Apart q) := inferInstanceAs (Decidable (_ ∨ _))

theorem Prefix.Apart.symm {p q : Prefix} (h : p.Apart q) : q.Apart p := Or.symm h

theorem resolve_ok {spec : Spec} (h : resolve spec = .ok l) :
    l.network = spec.cidr.first ∧ l.broadcast = spec.cidr.first + spec.cidr.size - 1 := by
  unfold resolve at h
  simp only [bind, Except.bind, pure, Except.pure, throw, throwThe, MonadExceptOf.throw] at h
  repeat' split at h
  all_goals cases h
  all_goals exact ⟨rfl, rfl⟩

theorem Layout.mem_pool {ip : Addr} (h : ip ∈ l.pool) :
    l.network < ip ∧ ip < l.broadcast := by
  obtain ⟨h, -⟩ := mem_filter.1 h
  obtain ⟨i, hi, rfl⟩ := List.mem_map.1 h
  have hi := mem_range.1 hi
  dsimp only [Addr] at *
  omega

namespace Net
variable {n n' : Net} {id : String} {ip : Addr}

theorem Sound.bounds (hn : n.Sound) (h : n.leases.get id = some ip) :
    n.spec.cidr.first ≤ ip ∧ ip < n.spec.cidr.first + n.spec.cidr.size := by
  have hpool := Layout.mem_pool (hn.pooled id ip h)
  obtain ⟨hfirst, hlast⟩ := resolve_ok hn.laid
  dsimp only [Addr] at *
  omega

theorem Sound.ne_of_apart (hn : n.Sound) (hn' : n'.Sound) (ha : n.spec.cidr.Apart n'.spec.cidr)
    (h : n.leases.get id = some ip) : n'.leases.get id' ≠ some ip := by
  intro h'
  have hb := hn.bounds h
  have hb' := hn'.bounds h'
  dsimp only [Prefix.Apart, Addr] at *
  omega

theorem freeAddr_free (h : n.freeAddr = some ip) (id : String) : n.leases.get id ≠ some ip := by
  intro hx
  have hfree := find?_some h
  simp only [Bool.not_eq_true', List.any_eq_false, beq_iff_eq] at hfree
  exact hfree _ (get_eq_some_iff.1 hx) rfl

structure Attached (n : Net) (id : String) (ip : Addr) (n' : Net) : Prop where
  isOpen : n.closed = false
  spec : n'.spec = n.spec
  layout : n'.layout = n.layout
  closed : n'.closed = n.closed
  lease : n'.leases.get id = some ip
  others : ∀ id', id' ≠ id → n'.leases.get id' = n.leases.get id'
  old : n.leases.get id = some ip ∨ (n.leases.get id = none ∧ ip ∈ n.layout.pool ∧ ∀ id', n.leases.get id' ≠ some ip)

theorem attach_ok (h : n.attach id = .ok (ip, n')) : n.Attached id ip n' := by
  unfold attach at h
  split at h
  · cases h
  split at h
  · cases h
  rename_i hclosed
  have hopen : n.closed = false := by simpa using hclosed
  split at h
  · rename_i ip' hip
    cases h
    exact ⟨hopen, rfl, rfl, rfl, hip, fun _ _ => rfl, .inl hip⟩
  · rename_i hnone
    split at h <;> cases h
    rename_i ip' hfree
    refine ⟨hopen, rfl, rfl, rfl, ?_, fun id' hne => ?_,
      .inr ⟨hnone, mem_of_find?_eq_some hfree, freeAddr_free hfree⟩⟩
    · exact (get_insert ..).trans (if_pos rfl)
    · exact (get_insert ..).trans (if_neg hne)

theorem Attached.mono (h : n.Attached id ip n') (hl : n.leases.get id' = some ip') : n'.leases.get id' = some ip' := by
  by_cases hne : id' = id
  · subst hne
    rw [h.lease]
    rcases h.old with hold | ⟨hnone, -⟩
    · exact hold.symm.trans hl
    · cases hnone.symm.trans hl
  · rw [h.others id' hne]; exact hl

theorem Attached.exclusive (h : n.Attached id ip n') (hn : n.Exclusive) : n'.Exclusive := by
  have hnew : ∀ id', id' ≠ id → n'.leases.get id' ≠ some ip := by
    intro id' hne hx
    rw [h.others id' hne] at hx
    rcases h.old with hold | ⟨-, hfree⟩
    · exact hne (hn id' id ip hx hold)
    · exact hfree.2 id' hx
  intro a b x ha hb
  by_cases hane : a = id
  · subst hane
    obtain rfl := some.inj (h.lease.symm.trans ha)
    by_contra hne
    exact hnew b (Ne.symm hne) hb
  · by_cases hbne : b = id
    · subst hbne
      obtain rfl := some.inj (h.lease.symm.trans hb)
      exact absurd ha (hnew a hane)
    · rw [h.others a hane] at ha
      rw [h.others b hbne] at hb
      exact hn a b x ha hb

theorem Attached.sound (h : n.Attached id ip n') (hn : n.Sound) : n'.Sound where
  laid := by rw [h.spec, h.layout]; exact hn.laid
  exclusive := h.exclusive hn.exclusive
  pooled id' ip' hl := by
    rw [h.layout]
    by_cases hne : id' = id
    · subst hne
      obtain rfl := some.inj (h.lease.symm.trans hl)
      exact h.old.elim (hn.pooled id' ip) fun hx => hx.2.1
    · rw [h.others id' hne] at hl
      exact hn.pooled id' ip' hl

theorem detach_get (n : Net) (id id' : String) :
    (n.detach id).leases.get id' = if id' = id then none else n.leases.get id' :=
  get_erase ..

theorem detach_exclusive (hn : n.Exclusive) : (n.detach id).Exclusive := by
  intro a b x ha hb
  rw [detach_get] at ha hb
  split at ha
  · cases ha
  split at hb
  · cases hb
  exact hn a b x ha hb

theorem detach_sound (hn : n.Sound) : (n.detach id).Sound where
  laid := hn.laid
  exclusive := detach_exclusive hn.exclusive
  pooled id' ip hl := by
    rw [detach_get] at hl
    split at hl
    · cases hl
    · exact hn.pooled id' ip hl

end Net

theorem parseLeases_ok {leases restored : GoMap String Addr}
    (h : parseLeases l leases = .ok restored) : restored = leases ∧ (leases.entries.map fun e => e.2).Nodup ∧
      ∀ id ip, leases.get id = some ip → ip ∈ l.pool := by
  unfold parseLeases at h
  split at h
  · cases h
  split at h
  · cases h
  rename_i hpool
  split at h <;> cases h
  refine ⟨rfl, ‹_›, fun id ip hl => ?_⟩
  by_contra hn
  exact hpool (List.any_eq_true.2 ⟨_, get_eq_some_iff.1 hl, by simpa using hn⟩)

theorem newNetwork_ok {spec : Spec} {leases : GoMap String Addr} {n : Net} (h : newNetwork spec leases = .ok n) :
    n.spec = spec ∧ n.leases = leases ∧ n.closed = false ∧ n.Sound := by
  unfold newNetwork at h
  cases hl : resolve spec with
  | error err => simp [hl, bind, Except.bind] at h
  | ok layout =>
    cases hp : parseLeases layout leases with
    | error err => simp [hl, hp, bind, Except.bind] at h
    | ok restored =>
      simp only [hl, hp, bind, Except.bind, pure, Except.pure, Except.ok.injEq] at h
      obtain ⟨rfl, hnd, hpool⟩ := parseLeases_ok hp
      subst h
      refine ⟨rfl, rfl, rfl, hl, fun id id' ip h1 h2 => ?_, hpool⟩
      have h1 := get_eq_some_iff.1 h1
      have h2 := get_eq_some_iff.1 h2
      have heq := inj_on_of_nodup_map hnd h1 h2 rfl
      exact congrArg Sigma.fst heq

namespace Manager
variable {m m' : Manager} {name id : String} {ref : Nat} {n n' : Net} {ip : Addr} {spec : Spec}
  {leases : GoMap String Addr}

theorem net_set (m : Manager) (ref ref' : Nat) (n : Net) :
    (m.set ref n).net ref' = if ref' = ref then some n else m.net ref' :=
  update_apply ..

theorem Consistent.empty : Consistent {} where
  named _ _ h := absurd h get_empty_ne
  current _ _ h := by cases h
  fresh _ _ := rfl
  sound _ _ h := by cases h

theorem Consistent.set (h : m.Consistent) (hn : m.net ref = some n) (hs : n'.spec = n.spec)
    (hc : n'.closed = n.closed) (hx : n'.Sound) : (m.set ref n').Consistent where
  named name' ref' hget := by
    obtain ⟨x, hx, h1, h2⟩ := h.named name' ref' hget
    rw [net_set]
    split
    · subst ref'
      obtain rfl := some.inj (hn.symm.trans hx)
      exact ⟨n', rfl, hs ▸ h1, hc.trans h2⟩
    · exact ⟨x, hx, h1, h2⟩
  current ref' x hx hcl := by
    rw [net_set] at hx
    split at hx
    · subst ref'
      obtain rfl := some.inj hx
      rw [hs]
      exact h.current ref n hn (hc.symm.trans hcl)
    · exact h.current ref' x hx hcl
  fresh ref' hle := by
    rw [net_set, if_neg]
    · exact h.fresh ref' hle
    · rintro rfl
      cases (h.fresh _ hle).symm.trans hn
  sound ref' x hx' := by
    rw [net_set] at hx'
    split at hx'
    · exact some.inj hx' ▸ hx
    · exact h.sound ref' x hx'

theorem attach_cases (m : Manager) (ref : Nat) (id : String) : m.attach ref id = m ∨
    ∃ n ip n', m.net ref = some n ∧ n.Attached id ip n' ∧ m.attach ref id = m.set ref n' := by
  cases hn : m.net ref with
  | none => exact .inl (by simp [attach, hn])
  | some n =>
    cases ha : n.attach id with
    | error err => exact .inl (by simp [attach, hn, ha])
    | ok r => exact .inr ⟨n, r.1, r.2, rfl, Net.attach_ok ha, by simp only [attach, hn, ha]⟩

theorem attach_eq (hn : m.net ref = some n) (ha : n.attach id = .ok (ip, n')) :
    m.attach ref id = m.set ref n' := by
  simp only [attach, hn, ha]

theorem detach_eq (hn : m.net ref = some n) : m.detach ref id = m.set ref (n.detach id) := by
  simp only [detach, hn]

theorem detach_cases (m : Manager) (ref : Nat) (id : String) : m.detach ref id = m ∨
    ∃ n, m.net ref = some n ∧ m.detach ref id = m.set ref (n.detach id) := by
  cases hn : m.net ref with
  | none => exact .inl (by simp [detach, hn])
  | some n => exact .inr ⟨n, rfl, detach_eq hn⟩

theorem Consistent.attach (h : m.Consistent) (ref : Nat) (id : String) :
    (m.attach ref id).Consistent := by
  rcases attach_cases m ref id with heq | ⟨n, ip, n', hn, hat, heq⟩
  · rwa [heq]
  · rw [heq]
    exact h.set hn hat.spec hat.closed (hat.sound (h.sound ref n hn))

theorem Consistent.detach (h : m.Consistent) (ref : Nat) (id : String) :
    (m.detach ref id).Consistent := by
  rcases detach_cases m ref id with heq | ⟨n, hn, heq⟩
  · rwa [heq]
  · rw [heq]
    exact h.set hn rfl rfl (Net.detach_sound (h.sound ref n hn))

theorem add_ok (h : m.add spec leases = .ok m') : m.get spec.name = none ∧ ∃ n, newNetwork spec leases = .ok n ∧
      m' = { byName := m.byName.insert spec.name m.next
             heap := update m.heap m.next (some n), next := m.next + 1 } := by
  unfold add at h
  split at h
  · cases h
  rename_i hfree
  cases hn : newNetwork spec leases with
  | error err => simp [hn, bind, Except.bind] at h
  | ok n =>
    simp only [hn, bind, Except.bind, pure, Except.pure, Except.ok.injEq] at h
    exact ⟨by simpa [get] using hfree, n, rfl, h.symm⟩

theorem get_add (ha : m.add spec leases = .ok m') (name : String) :
    m'.get name = if name = spec.name then some m.next else m.get name := by
  obtain ⟨-, n, -, rfl⟩ := add_ok ha
  exact get_insert ..

theorem net_add (ha : m.add spec leases = .ok m') : ∃ n, newNetwork spec leases = .ok n ∧
    ∀ ref, m'.net ref = if ref = m.next then some n else m.net ref := by
  obtain ⟨-, n, hn, rfl⟩ := add_ok ha
  exact ⟨n, hn, fun ref => update_apply ..⟩

theorem Consistent.ne_next (h : m.Consistent) (hn : m.net ref = some n) : ref ≠ m.next := by
  rintro rfl
  cases (h.fresh _ le_rfl).symm.trans hn

theorem Consistent.add (h : m.Consistent) (ha : m.add spec leases = .ok m') : m'.Consistent := by
  have hget := get_add ha
  obtain ⟨n, hn, hnet⟩ := net_add ha
  obtain ⟨hs, -, hc, hx⟩ := newNetwork_ok hn
  refine ⟨fun name' ref' hg => ?_, fun ref' x hx' hcl => ?_, fun ref' hle => ?_, fun ref' x hx' => ?_⟩
  · rw [hget] at hg
    rw [hnet]
    split at hg
    · obtain rfl := some.inj hg
      exact ⟨n, if_pos rfl, by rw [hs]; symm; assumption, hc⟩
    · obtain ⟨x, hx', hold⟩ := h.named name' ref' hg
      exact ⟨x, (if_neg (h.ne_next hx')).trans hx', hold⟩
  · rw [hnet] at hx'
    rw [hget]
    split at hx'
    · obtain rfl := some.inj hx'
      rw [hs, if_pos rfl]
      subst ref'
      rfl
    · have hcur := h.current ref' x hx' hcl
      rw [if_neg]
      · exact hcur
      · rintro heq
        rw [heq, (add_ok ha).1] at hcur
        cases hcur
  · obtain ⟨-, _, -, rfl⟩ := add_ok ha
    have hle : m.next + 1 ≤ ref' := hle
    rw [hnet, if_neg (by omega)]
    exact h.fresh ref' (by omega)
  · rw [hnet] at hx'
    split at hx'
    · exact some.inj hx' ▸ hx
    · exact h.sound ref' x hx'

theorem delete_eq (hn : m.net ref = some n) :
    m.delete name ref = { m.set ref { n with closed := true } with byName := m.byName.erase name } := by
  simp only [delete, hn]

theorem Consistent.delete (h : m.Consistent) (hg : m.get name = some ref) :
    (m.delete name ref).Consistent := by
  obtain ⟨n, hn, rfl, -⟩ := h.named name ref hg
  rw [delete_eq hn]
  have hget : ∀ name', get { m.set ref { n with closed := true } with
      byName := m.byName.erase n.spec.name } name' =
      if name' = n.spec.name then none else m.get name' := fun name' => get_erase ..
  have hnet : ∀ ref', net { m.set ref { n with closed := true } with
      byName := m.byName.erase n.spec.name } ref' =
      if ref' = ref then some { n with closed := true } else m.net ref' := fun ref' => net_set m ref ref' _
  refine ⟨fun name' ref' hg' => ?_, fun ref' x hx hcl => ?_, fun ref' hle => ?_, fun ref' x hx => ?_⟩
  · rw [hget] at hg'
    split at hg'
    · cases hg'
    · rename_i hname
      obtain ⟨x, hx, h1, h2⟩ := h.named name' ref' hg'
      have hne : ref' ≠ ref := by
        rintro rfl
        obtain rfl := some.inj (hn.symm.trans hx)
        exact hname h1.symm
      exact ⟨x, by rw [hnet, if_neg hne]; exact hx, h1, h2⟩
  · rw [hnet] at hx
    split at hx
    · obtain rfl := some.inj hx
      cases hcl
    · rename_i hne
      have hcur := h.current ref' x hx hcl
      rw [hget, if_neg]
      · exact hcur
      · rintro heq
        rw [heq, hg] at hcur
        exact hne (some.inj hcur).symm
  · rw [hnet, if_neg]
    · exact h.fresh ref' hle
    · rintro rfl
      cases (h.fresh _ hle).symm.trans hn
  · rw [hnet] at hx
    split at hx
    · exact some.inj hx ▸ ⟨(h.sound ref n hn).laid, (h.sound ref n hn).exclusive, (h.sound ref n hn).pooled⟩
    · exact h.sound ref' x hx

theorem Keeps.refl (m : Manager) : m.Keeps m := fun _ n hn => ⟨n, hn, rfl⟩

theorem Keeps.set (hn : m.net ref = some n) (hs : n'.spec = n.spec) : m.Keeps (m.set ref n') := by
  intro ref' x hx
  rw [net_set]
  split
  · subst ref'
    obtain rfl := some.inj (hn.symm.trans hx)
    exact ⟨n', rfl, hs⟩
  · exact ⟨x, hx, rfl⟩

theorem keeps_attach (m : Manager) (ref : Nat) (id : String) : m.Keeps (m.attach ref id) := by
  rcases attach_cases m ref id with heq | ⟨n, ip, n', hn, hat, heq⟩
  · rw [heq]
    exact .refl m
  · rw [heq]
    exact .set hn hat.spec

theorem keeps_detach (m : Manager) (ref : Nat) (id : String) : m.Keeps (m.detach ref id) := by
  rcases detach_cases m ref id with heq | ⟨n, hn, heq⟩
  · rw [heq]
    exact .refl m
  · rw [heq]
    exact .set hn rfl

theorem keeps_delete (m : Manager) (name : String) (ref : Nat) : m.Keeps (m.delete name ref) := by
  cases hn : m.net ref with
  | none => simpa [delete, hn] using Keeps.refl m
  | some n =>
    have hk : m.Keeps (m.set ref { n with closed := true }) := Keeps.set hn rfl
    rw [delete_eq hn]
    exact hk

theorem Consistent.keeps_add (h : m.Consistent) (ha : m.add spec leases = .ok m') : m.Keeps m' := by
  obtain ⟨n, -, hnet⟩ := net_add ha
  exact fun ref x hx => ⟨x, (hnet ref).trans ((if_neg (h.ne_next hx)).trans hx), rfl⟩

theorem check_ok (h : m.check name = .ok ref) :
    m.get name = some ref ∧ ∃ n, m.net ref = some n ∧ n.leases.entries = [] := by
  unfold check at h
  split at h
  · cases h
  rename_i ref' hget
  split at h
  · cases h
  rename_i n hn
  split at h <;> cases h
  rename_i hl
  exact ⟨hget, n, hn, by simpa using hl⟩

theorem leaseOf_eq_some : m.leaseOf name id = some (ref, ip) ↔
    m.get name = some ref ∧ ∃ n, m.net ref = some n ∧ n.leases.get id = some ip := by
  simp only [leaseOf, bind_eq_bind, bind_eq_some_iff]
  constructor
  · rintro ⟨ref', hg, n, hn, ip', hl, h⟩
    cases h
    exact ⟨hg, n, hn, hl⟩
  · rintro ⟨hg, n, hn, hl⟩
    exact ⟨ref, hg, n, hn, ip, hl, rfl⟩

@[simp] theorem attach_byName (m : Manager) (ref : Nat) (id : String) :
    (m.attach ref id).byName = m.byName := by
  unfold attach
  split
  · rfl
  · split <;> rfl

@[simp] theorem detach_byName (m : Manager) (ref : Nat) (id : String) :
    (m.detach ref id).byName = m.byName := by
  unfold detach
  split <;> rfl

theorem leaseOf_attach (h : m.leaseOf name id = some (ref, ip)) (ref' : Nat) (id' : String) :
    (m.attach ref' id').leaseOf name id = some (ref, ip) := by
  obtain ⟨hg, n, hn, hl⟩ := leaseOf_eq_some.1 h
  refine leaseOf_eq_some.2 ⟨by rw [get, attach_byName]; exact hg, ?_⟩
  rcases attach_cases m ref' id' with heq | ⟨x, ip', x', hn', hat, heq⟩
  · rw [heq]
    exact ⟨n, hn, hl⟩
  · rw [heq, net_set]
    split
    · subst ref'
      obtain rfl := some.inj (hn.symm.trans hn')
      exact ⟨x', rfl, hat.mono hl⟩
    · exact ⟨n, hn, hl⟩

theorem Consistent.leaseOf_add (hm : m.Consistent) (ha : m.add spec leases = .ok m')
    (h : m.leaseOf name id = some (ref, ip)) : m'.leaseOf name id = some (ref, ip) := by
  obtain ⟨hg, n, hn, hl⟩ := leaseOf_eq_some.1 h
  obtain ⟨x, -, hnet⟩ := net_add ha
  have hname : name ≠ spec.name := by
    rintro rfl
    cases (add_ok ha).1.symm.trans hg
  exact leaseOf_eq_some.2 ⟨(get_add ha name).trans ((if_neg hname).trans hg), n,
    (hnet ref).trans ((if_neg (hm.ne_next hn)).trans hn), hl⟩

theorem leaseOf_added (ha : m.add spec leases = .ok m') (h : leases.get id = some ip) :
    m'.leaseOf spec.name id = some (m.next, ip) := by
  obtain ⟨n, hn, hnet⟩ := net_add ha
  rw [← (newNetwork_ok hn).2.1] at h
  exact leaseOf_eq_some.2 ⟨(get_add ha _).trans (if_pos rfl), n, (hnet _).trans (if_pos rfl), h⟩

def Gives (m : Manager) (ref : Nat) (name id : String) (ip : Addr) : Prop :=
  ∃ n, m.net ref = some n ∧ n.closed = false ∧ n.leases.get id = some ip ∧ n.spec.name = name

namespace Gives

theorem current (hm : m.Consistent) (h : m.Gives ref name id ip) : m.get name = some ref := by
  obtain ⟨n, hn, hc, -, rfl⟩ := h
  exact hm.current ref n hn hc

theorem leaseOf (hm : m.Consistent) (h : m.Gives ref name id ip) :
    m.leaseOf name id = some (ref, ip) := by
  have hg := h.current hm
  obtain ⟨n, hn, -, hl, -⟩ := h
  exact leaseOf_eq_some.2 ⟨hg, n, hn, hl⟩

theorem of_leaseOf (hm : m.Consistent) (h : m.leaseOf name id = some (ref, ip)) :
    m.Gives ref name id ip := by
  obtain ⟨hg, n, hn, hl⟩ := leaseOf_eq_some.1 h
  obtain ⟨n', hn', hname, hc⟩ := hm.named name ref hg
  obtain rfl := some.inj (hn.symm.trans hn')
  exact ⟨n, hn, hc, hl, hname⟩

theorem unique (hm : m.Consistent) (h : m.Gives ref name id ip)
    (h' : m.Gives ref' name id ip') : ref = ref' ∧ ip = ip' := by
  have heq := (h.leaseOf hm).symm.trans (h'.leaseOf hm)
  cases heq
  exact ⟨rfl, rfl⟩

theorem exclusive (hm : m.Consistent) (h : m.Gives ref name id ip) (h' : m.Gives ref' name id' ip) : id = id' := by
  obtain rfl := some.inj ((h.current hm).symm.trans (h'.current hm))
  obtain ⟨n, hn, -, hl, -⟩ := h
  obtain ⟨n', hn', -, hl', -⟩ := h'
  obtain rfl := some.inj (hn.symm.trans hn')
  exact (hm.sound ref n hn).exclusive id id' ip hl hl'

theorem of_attach (hn : m.net ref = some n) (ha : n.attach id = .ok (ip, n')) :
    (m.attach ref id).Gives ref n.spec.name id ip := by
  have hat := Net.attach_ok ha
  rw [attach_eq hn ha]
  exact ⟨n', (net_set ..).trans (if_pos rfl), hat.closed.trans hat.isOpen, hat.lease, congrArg Spec.name hat.spec⟩

theorem set (h : m.Gives ref name id ip) (hn : m.net ref' = some n) (hs : n'.spec = n.spec) (hc : n'.closed = n.closed)
    (hl : n.leases.get id = some ip → n'.leases.get id = some ip) :
    (m.set ref' n').Gives ref name id ip := by
  obtain ⟨x, hx, hopen, hlease, hname⟩ := h
  by_cases href : ref = ref'
  · subst href
    obtain rfl := some.inj (hn.symm.trans hx)
    exact ⟨n', (net_set ..).trans (if_pos rfl), hc.trans hopen, hl hlease, (congrArg Spec.name hs).trans hname⟩
  · exact ⟨x, (net_set ..).trans ((if_neg href).trans hx), hopen, hlease, hname⟩

theorem attach (h : m.Gives ref name id ip) (ref' : Nat) (id' : String) :
    (m.attach ref' id').Gives ref name id ip := by
  rcases attach_cases m ref' id' with heq | ⟨n, ip', n', hn, hat, heq⟩
  · rwa [heq]
  · rw [heq]
    exact h.set hn hat.spec hat.closed hat.mono

theorem detach (h : m.Gives ref name id ip) (ref' : Nat) (hne : id ≠ id') :
    (m.detach ref' id').Gives ref name id ip := by
  rcases detach_cases m ref' id' with heq | ⟨n, hn, heq⟩
  · rwa [heq]
  · rw [heq]
    refine h.set hn rfl rfl fun hl => ?_
    rw [Net.detach_get, if_neg hne]
    exact hl

theorem add (hm : m.Consistent)
    (ha : m.add spec leases = .ok m') (h : m.Gives ref name id ip) : m'.Gives ref name id ip :=
  of_leaseOf (hm.add ha) (hm.leaseOf_add ha (h.leaseOf hm))

theorem delete (h : m.Gives ref name id ip) {name' : String} (hl : ∀ n, m.net ref' = some n → n.leases.entries = []) :
    (m.delete name' ref').Gives ref name id ip := by
  cases hn : m.net ref' with
  | none => simpa [Manager.delete, hn] using h
  | some x =>
    obtain ⟨n, hn', hopen, hlease, hname⟩ := h
    have hne : ref ≠ ref' := by
      rintro rfl
      have hmem := get_eq_some_iff.1 hlease
      rw [hl n hn'] at hmem
      exact absurd hmem not_mem_nil
    rw [delete_eq hn]
    exact ⟨n, (net_set m ref' ref _).trans ((if_neg hne).trans hn'), hopen, hlease, hname⟩

end Gives

def Separate (m : Manager) : Prop :=
  ∀ ref ref' n n', m.net ref = some n → n.closed = false → m.net ref' = some n' →
    n'.closed = false → ref ≠ ref' → n.spec.cidr.Apart n'.spec.cidr

namespace Separate

theorem set (h : m.Separate) (hn : m.net ref = some n) (hs : n'.spec = n.spec)
    (hc : n'.closed = false → n.closed = false) : (m.set ref n').Separate := by
  have hold : ∀ ref' x', (m.set ref n').net ref' = some x' → x'.closed = false →
      ∃ x, m.net ref' = some x ∧ x.closed = false ∧ x'.spec = x.spec := by
    intro ref' x' hx hopen
    rw [net_set] at hx
    split at hx
    · subst ref'
      obtain rfl := some.inj hx
      exact ⟨n, hn, hc hopen, hs⟩
    · exact ⟨x', hx, hopen, rfl⟩
  intro r r' x x' hx hopen hx' hopen' hne
  obtain ⟨y, hy, hyopen, hyspec⟩ := hold r x hx hopen
  obtain ⟨y', hy', hyopen', hyspec'⟩ := hold r' x' hx' hopen'
  rw [hyspec, hyspec']
  exact h r r' y y' hy hyopen hy' hyopen' hne

theorem attach (h : m.Separate) (ref : Nat) (id : String) : (m.attach ref id).Separate := by
  rcases attach_cases m ref id with heq | ⟨n, ip, n', hn, hat, heq⟩
  · rwa [heq]
  · rw [heq]
    exact h.set hn hat.spec fun _ => hat.isOpen

theorem detach (h : m.Separate) (ref : Nat) (id : String) : (m.detach ref id).Separate := by
  rcases detach_cases m ref id with heq | ⟨n, hn, heq⟩
  · rwa [heq]
  · rw [heq]
    exact h.set hn rfl fun hc => hc

theorem delete (h : m.Separate) (name : String) (ref : Nat) : (m.delete name ref).Separate := by
  cases hn : m.net ref with
  | none => simpa [Manager.delete, hn] using h
  | some n =>
    rw [delete_eq hn]
    have hset : (m.set ref { n with closed := true }).Separate := h.set hn rfl nofun
    exact hset

theorem add (h : m.Separate) (hm : m.Consistent) (ha : m.add spec leases = .ok m')
    (hs : ∀ name n, m.find name = some n → spec.cidr.Apart n.spec.cidr) : m'.Separate := by
  obtain ⟨n, hn, hnet⟩ := net_add ha
  obtain ⟨rfl, -, -, -⟩ := newNetwork_ok hn
  have hfind : ∀ ref x, m.net ref = some x → x.closed = false → n.spec.cidr.Apart x.spec.cidr := by
    intro ref x hx hopen
    refine hs x.spec.name x ?_
    rw [find, hm.current ref x hx hopen]
    exact hx
  intro r r' x x' hx hopen hx' hopen' hne
  rw [hnet] at hx hx'
  split at hx
  · cases hx
    split at hx'
    · exact absurd (‹r = _›.trans ‹r' = _›.symm) hne
    · exact hfind r' x' hx' hopen'
  · split at hx'
    · cases hx'
      exact (hfind r x hx hopen).symm
    · exact h r r' x x' hx hopen hx' hopen' hne

theorem empty : Separate {} := fun _ _ _ _ hn => by cases hn

theorem ref_eq (h : m.Separate) (hm : m.Consistent) {name' id' : String}
    (hg : m.Gives ref name id ip) (hg' : m.Gives ref' name' id' ip) : ref = ref' := by
  obtain ⟨n, hn, hopen, hl, -⟩ := hg
  obtain ⟨n', hn', hopen', hl', -⟩ := hg'
  by_contra hne
  exact (hm.sound ref n hn).ne_of_apart (hm.sound ref' n' hn')
    (h ref ref' n n' hn hopen hn' hopen' hne) hl hl'

end Separate

theorem get_delete (hn : m.net ref = some n) (name' : String) :
    (m.delete name ref).get name' = if name' = name then none else m.get name' := by
  rw [delete_eq hn]
  exact get_erase ..

def holds (m : Manager) (ref : Nat) (id : String) : Bool := (m.net ref).any fun n => (n.leases.get id).isSome

theorem attach_of_holds (h : m.holds ref id = true) : m.attach ref id = m := by
  obtain ⟨n, hn, hl⟩ := (Option.any_eq_true _ _).1 h
  obtain ⟨ip, hl⟩ := isSome_iff_exists.1 hl
  have hset : m.set ref n = m := by
    rw [set, show update m.heap ref (some n) = m.heap from
      update_eq_self_iff.2 hn.symm]
  cases ha : n.attach id with
  | error err => simp [attach, hn, ha]
  | ok r =>
    have heq : r.2 = n := by
      simp only [Net.attach, hl] at ha
      split at ha
      · cases ha
      split at ha <;> cases ha
      rfl
    rw [attach_eq hn ha, heq, hset]

theorem find_add (ha : m.add spec leases = .ok m') (hf : m'.find name = some n) :
    m.find name = some n ∨ n.state = ⟨spec, leases⟩ := by
  obtain ⟨x, hx, hnet⟩ := net_add ha
  obtain ⟨hspec, hleases, -⟩ := newNetwork_ok hx
  obtain ⟨ref', hget, hn⟩ := bind_eq_some_iff.1 hf
  rw [get_add ha] at hget
  rw [hnet] at hn
  split at hn
  · obtain rfl := some.inj hn
    exact .inr (by rw [Net.state, hspec, hleases])
  · rename_i hne
    split at hget
    · exact absurd (some.inj hget).symm hne
    · exact .inl (bind_eq_some_iff.2 ⟨ref', hget, hn⟩)

theorem mem_states {st : State} : st ∈ m.states ↔ ∃ name n, m.find name = some n ∧ n.state = st := by
  have hkey : ∀ name n, m.find name = some n → name ∈ m.byName.keys.insertionSort (· ≤ ·) := by
    intro name n hf
    obtain ⟨ref', hget, -⟩ := bind_eq_some_iff.1 hf
    exact (mem_insertionSort _).2 (AList.mem_keys.1 (AList.lookup_isSome.1 (by
      rw [show m.byName.lookup name = some ref' from hget]; rfl)))
  simp only [states, mem_filterMap, map_eq_some_iff]
  constructor
  · rintro ⟨name, -, n, hf, heq⟩
    exact ⟨name, n, hf, heq⟩
  · rintro ⟨name, n, hf, heq⟩
    exact ⟨name, hkey name n hf, n, hf, heq⟩

end Manager

def Ordered (l : List State) : Prop := l.Pairwise fun a b => a.spec.name < b.spec.name

theorem Ordered.eq_of_name {l : List State} {a b : State} (h : Ordered l) (ha : a ∈ l) (hb : b ∈ l)
    (heq : a.spec.name = b.spec.name) : a = b := by
  have hnd : (l.map fun st => st.spec.name).Nodup := pairwise_map.2 (h.imp ne_of_lt)
  exact inj_on_of_nodup_map hnd ha hb heq

namespace Manager
variable {m : Manager}

theorem Consistent.find_name {name : String} {n : Net} (hm : m.Consistent)
    (hf : m.find name = some n) : n.spec.name = name := by
  obtain ⟨ref, hget, hnet⟩ := bind_eq_some_iff.1 hf
  obtain ⟨x, hx, hname, -⟩ := hm.named name ref hget
  rw [some.inj (hnet.symm.trans hx)]
  exact hname

theorem Consistent.ordered (hm : m.Consistent) : Ordered m.states := by
  have hnd : (m.byName.keys.insertionSort (· ≤ ·)).Nodup :=
    (perm_insertionSort (· ≤ ·) _).nodup_iff.2 m.byName.keys_nodup
  have hlt : (m.byName.keys.insertionSort (· ≤ ·)).Pairwise (· < ·) :=
    (pairwise_insertionSort (· ≤ ·) m.byName.keys).imp₂ (fun _ _ => lt_of_le_of_ne) hnd
  refine pairwise_filterMap.2 (hlt.imp fun {a b} hab x hx y hy => ?_)
  obtain ⟨n, hn, rfl⟩ := map_eq_some_iff.1 hx
  obtain ⟨n', hn', rfl⟩ := map_eq_some_iff.1 hy
  rw [Net.state, Net.state, hm.find_name hn, hm.find_name hn']
  exact hab

theorem Consistent.states_eq {l : List State} (hm : m.Consistent) (hl : Ordered l)
    (h : ∀ st, st ∈ l ↔ st ∈ m.states) : l = m.states := by
  have hnd : ∀ {l : List State}, Ordered l → l.Nodup := fun hl =>
    List.Pairwise.imp (fun hlt heq => absurd (heq ▸ hlt) (lt_irrefl _)) hl
  have hperm := (perm_ext_iff_of_nodup (hnd hl) (hnd hm.ordered)).2 h
  exact hperm.eq_of_pairwise (fun a b _ _ h1 h2 => absurd (h1.trans h2) (lt_irrefl _)) hl hm.ordered

end Manager

end VmManager.Network
