import VmManager.Network.Leasing

/-! The addresses of a network as netip computes them, on 32 bits: masking, the last address by bytes,
successors and predecessors. `resolveIP` is `resolve` of the number model, and the loop over the pool
ends before the successor could leave the address space. -/
namespace VmManager
open List Option
namespace Network
variable {gatewayIP : Option Addr} {σ : Type} {a : IPv4}

abbrev IPv4 := BitVec 32

/-- A netip.Addr; none is the zero Addr, which is no IPv4 address and below all of them. -/
abbrev NetAddr := Option IPv4

def NetAddr.next : NetAddr → NetAddr
  | some a => if a + 1 = 0 then none else some (a + 1)
  | none => none

def NetAddr.prev : NetAddr → NetAddr
  | some a => if a = 0 then none else some (a - 1)
  | none => none

def NetAddr.before : NetAddr → NetAddr → Bool
  | none, none => false
  | none, some _ => true
  | some _, none => false
  | some a, some b => decide (a < b)

def NetAddr.ofAddr (a : Addr) : NetAddr := if a < 2 ^ 32 then some (BitVec.ofNat 32 a) else none

structure Block where
  addr : IPv4
  bits : Nat

def as4 (a : IPv4) : List (BitVec 8) := [a.extractLsb' 24 8, a.extractLsb' 16 8, a.extractLsb' 8 8, a.extractLsb' 0 8]

def addrFrom4 : List (BitVec 8) → IPv4
  | [a, b, c, d] => a ++ b ++ c ++ d
  | _ => 0

def cidrMask (ones : Nat) : List (BitVec 8) :=
  (range 4).map fun i =>
    if 8 ≤ ones - 8 * i then 0xff else ~~~((0xff : BitVec 8) >>> (ones - 8 * i))

namespace Block

def masked (p : Block) : Block := { p with addr := p.addr &&& (BitVec.allOnes 32 <<< (32 - p.bits)) }

def contains (p : Block) : NetAddr → Bool
  | some ip => (ip ^^^ p.addr) >>> (32 - p.bits) == 0
  | none => false

def overlapsLinkLocal (p : Block) : Bool := p.addr >>> 16 == (0xa9fe0000 : IPv4) >>> 16

def lastAddr (p : Block) : IPv4 := addrFrom4 (zipWith (fun a m => a ||| ~~~m) (as4 p.addr) (cidrMask p.bits))

end Block

structure IPLayout where
  block : Block
  network : NetAddr
  gateway : NetAddr
  host : NetAddr
  broadcast : NetAddr

def Spec.block (spec : Spec) : Block := Block.masked ⟨BitVec.ofNat 32 spec.cidr.addr, spec.cidr.bits⟩

def Block.layout (block : Block) (gatewayIP : Option Addr) : Except String IPLayout :=
  let network : NetAddr := some block.addr
  let broadcast : NetAddr := some block.lastAddr
  let host := broadcast.prev
  match gatewayIP with
  | none => .ok { block, network, gateway := network.next, host, broadcast }
  | some gatewayIP =>
    let gateway := NetAddr.ofAddr gatewayIP
    if !block.contains gateway || gateway == network || gateway == broadcast || gateway == host then
      .error "invalid request: gateway must be a host address of the network other than the host alias"
    else .ok { block, network, gateway, host, broadcast }

def resolveIP (spec : Spec) : Except String IPLayout :=
  if !validName spec.name then
    .error ("invalid request: name \"" ++ spec.name ++ "\" must be a DNS label")
  else if 2 ^ 32 ≤ spec.cidr.addr then
    .error "invalid request: cidr must be IPv4"
  else if spec.cidr.bits < minPrefixBits ∨ spec.cidr.bits > maxPrefixBits then
    .error "invalid request: cidr must be between /16 and /29"
  else if spec.block.overlapsLinkLocal then
    .error "invalid request: cidr overlaps the link-local range reserved for IMDS"
  else spec.block.layout spec.gatewayIP

namespace IPLayout

def poolContains (l : IPLayout) (ip : NetAddr) : Bool :=
  l.block.contains ip && ip != l.network && ip != l.gateway && ip != l.host && ip != l.broadcast

def poolSize (l : IPLayout) : Nat := 2 ^ (32 - l.block.bits) - 4

/-- The loop of `eachPool` from an address on. The callback is given its state and says whether to go on.
The first argument bounds the rounds; Go has no bound. -/
def eachFrom {σ : Type} (l : IPLayout) (fn : NetAddr → σ → σ × Bool) : Nat → NetAddr → σ → Option σ
  | 0, _, _ => none
  | rounds + 1, ip, s =>
    if ip.before l.broadcast then
      if !l.poolContains ip then l.eachFrom fn rounds ip.next s
      else match fn ip s with
        | (s, true) => l.eachFrom fn rounds ip.next s
        | (s, false) => some s
    else some s

def eachPool {σ : Type} (l : IPLayout) (fn : NetAddr → σ → σ × Bool) (rounds : Nat) (s : σ) : Option σ :=
  l.eachFrom fn rounds l.network.next s

end IPLayout

section Bits

variable {w h : Nat}

theorem toNat_and_high (x : BitVec w) :
    (x &&& (BitVec.allOnes w <<< h)).toNat = x.toNat / 2 ^ h * 2 ^ h := by
  have hshift : x &&& (BitVec.allOnes w <<< h) = (x >>> h) <<< h := by
    ext i hi
    grind
  have hlt : x.toNat / 2 ^ h * 2 ^ h < 2 ^ w := by
    have hle := Nat.div_mul_le_self x.toNat (2 ^ h)
    omega
  rw [hshift, BitVec.toNat_shiftLeft, BitVec.toNat_ushiftRight, Nat.shiftLeft_eq,
    Nat.shiftRight_eq_div_pow, Nat.mod_eq_of_lt hlt]

theorem toNat_or_low (x : BitVec w) (hh : h ≤ w) (hx : 2 ^ h ∣ x.toNat) :
    (x ||| ~~~(BitVec.allOnes w <<< h)).toNat = x.toNat + (2 ^ h - 1) := by
  obtain ⟨k, hk⟩ := hx
  have hlow : (~~~(BitVec.allOnes w <<< h)).toNat = 2 ^ h - 1 := by
    apply Nat.eq_of_testBit_eq
    intro i
    rw [BitVec.testBit_toNat, Nat.testBit_two_pow_sub_one]
    grind
  have hpos := Nat.two_pow_pos h
  rw [BitVec.toNat_or, hlow, hk, Nat.two_pow_add_eq_or_of_lt (by omega)]

theorem xor_ushiftRight_eq_zero (x y : BitVec w) :
    (x ^^^ y) >>> h = 0#w ↔ x.toNat / 2 ^ h = y.toNat / 2 ^ h := by
  rw [BitVec.ushiftRight_xor_distrib, BitVec.xor_eq_zero_iff, ← BitVec.toNat_inj,
    BitVec.toNat_ushiftRight, BitVec.toNat_ushiftRight, Nat.shiftRight_eq_div_pow, Nat.shiftRight_eq_div_pow]

end Bits

theorem addrFrom4_or (a : IPv4) (m₀ m₁ m₂ m₃ : BitVec 8) :
    addrFrom4 (zipWith (fun a m => a ||| ~~~m) (as4 a) [m₀, m₁, m₂, m₃]) =
      a ||| ~~~(addrFrom4 [m₀, m₁, m₂, m₃]) := by
  simp only [as4, zipWith, addrFrom4]
  grind

theorem addrFrom4_cidrMask {ones : Nat} (h : ones ≤ 32) :
    addrFrom4 (cidrMask ones) = BitVec.allOnes 32 <<< (32 - ones) := by
  have hall : ∀ k < 33, addrFrom4 (cidrMask k) = BitVec.allOnes 32 <<< (32 - k) := by decide
  exact hall ones (by omega)

namespace Block

variable {p : Block}

def size (p : Block) : Nat := 2 ^ (32 - p.bits)

theorem masked_toNat (p : Block) : p.masked.addr.toNat = p.addr.toNat / p.size * p.size := toNat_and_high p.addr

theorem lastAddr_eq (hbits : p.bits ≤ 32) :
    p.lastAddr = p.addr ||| ~~~(BitVec.allOnes 32 <<< (32 - p.bits)) := by
  rw [← addrFrom4_cidrMask hbits]
  exact addrFrom4_or p.addr _ _ _ _

theorem lastAddr_toNat (hbits : p.bits ≤ 32) (hp : p.size ∣ p.addr.toNat) :
    p.lastAddr.toNat = p.addr.toNat + p.size - 1 := by
  have hpos : 1 ≤ p.size := Nat.two_pow_pos _
  rw [lastAddr_eq hbits, Nat.add_sub_assoc hpos]
  exact toNat_or_low p.addr (by omega) hp

theorem contains_iff (hp : p.size ∣ p.addr.toNat) (ip : IPv4) :
    p.contains (some ip) = true ↔ p.addr.toNat ≤ ip.toNat ∧ ip.toNat < p.addr.toNat + p.size := by
  have hpos : 0 < p.size := Nat.two_pow_pos _
  have hdiv : p.contains (some ip) = true ↔ ip.toNat / p.size = p.addr.toNat / p.size := by
    rw [contains, beq_iff_eq]
    exact xor_ushiftRight_eq_zero ip p.addr
  obtain ⟨k, hk⟩ := hp
  rw [hdiv, hk, Nat.mul_div_cancel_left k hpos, Nat.div_eq_iff hpos, Nat.mul_comm k]
  omega

theorem overlapsLinkLocal_iff (hbits : 16 ≤ p.bits) (hp : p.size ∣ p.addr.toNat) : p.overlapsLinkLocal = true ↔
      p.addr.toNat ≤ linkLocalLast ∧ linkLocalFirst ≤ p.addr.toNat + p.size - 1 := by
  have hdiv : p.overlapsLinkLocal = true ↔ p.addr.toNat / 2 ^ 16 = 0xa9fe := by
    rw [overlapsLinkLocal, beq_iff_eq, ← BitVec.toNat_inj, BitVec.toNat_ushiftRight, Nat.shiftRight_eq_div_pow]
    exact Iff.rfl
  have hsize : p.size ∣ 2 ^ 16 := Nat.pow_dvd_pow 2 (by omega)
  have hpos : 0 < p.size := Nat.two_pow_pos _
  have hreach : 0xa9fe0000 < p.addr.toNat + p.size → 0xa9fe0000 ≤ p.addr.toNat := by
    have hfirst : p.size ∣ 0xa9fe0000 := Nat.dvd_trans hsize (by decide)
    obtain ⟨k, hk⟩ := hp
    obtain ⟨m, hm⟩ := hfirst
    rw [hk, hm, ← Nat.mul_succ]
    intro hlt
    exact Nat.mul_le_mul_left _ (Nat.lt_succ_iff.1 (Nat.lt_of_mul_lt_mul_left hlt))
  rw [hdiv]
  dsimp only [linkLocalFirst, linkLocalLast, Addr]
  omega

end Block

def IPLayout.numbers (l : IPLayout) : Layout where
  network := (l.network.map BitVec.toNat).getD 0
  gateway := (l.gateway.map BitVec.toNat).getD 0
  host := (l.host.map BitVec.toNat).getD 0
  broadcast := (l.broadcast.map BitVec.toNat).getD 0

variable {spec : Spec} {l : IPLayout}

theorem Spec.block_toNat (hv4 : spec.cidr.addr < 2 ^ 32) :
    spec.block.addr.toNat = spec.cidr.first := by
  have h := Block.masked_toNat ⟨BitVec.ofNat 32 spec.cidr.addr, spec.cidr.bits⟩
  rw [BitVec.toNat_ofNat, Nat.mod_eq_of_lt hv4] at h
  exact h

theorem Spec.size_dvd_block (hv4 : spec.cidr.addr < 2 ^ 32) :
    spec.block.size ∣ spec.block.addr.toNat := by
  rw [Spec.block_toNat hv4]
  exact Nat.dvd_mul_left _ _

theorem prev_toNat (h : 0 < a.toNat) :
    ∃ b : IPv4, NetAddr.prev (some a) = some b ∧ b.toNat = a.toNat - 1 := by
  have hne : a ≠ 0 := by
    intro h0
    rw [h0] at h
    exact absurd h (by decide)
  refine ⟨a - 1, if_neg hne, ?_⟩
  bv_omega

theorem next_toNat (h : a.toNat + 1 < 2 ^ 32) :
    ∃ b : IPv4, NetAddr.next (some a) = some b ∧ b.toNat = a.toNat + 1 := by
  have hne : a + 1 ≠ 0 := by
    bv_omega
  refine ⟨a + 1, if_neg hne, ?_⟩
  bv_omega

theorem gateway_refused_iff {p : Block} (hbits : p.bits ≤ 32) (hp : p.size ∣ p.addr.toNat)
    (gateway : IPv4) {host : IPv4} (hhost : host.toNat = p.addr.toNat + p.size - 1 - 1) :
    (!p.contains (some gateway) || some gateway == some p.addr || some gateway == some p.lastAddr ||
      some gateway == some host) = true ↔
    ¬ (p.addr.toNat < gateway.toNat ∧ gateway.toNat < p.addr.toNat + p.size - 1 - 1) := by
  have hlast := Block.lastAddr_toNat hbits hp
  have hin := Block.contains_iff hp gateway
  simp only [Bool.or_eq_true, Bool.not_eq_true', beq_iff_eq, some.injEq, ← BitVec.toNat_inj,
    hlast, hhost, ← Bool.not_eq_true, hin]
  omega

theorem layout_numbers {p : Block} (hbits : p.bits ≤ 29) (hp : p.size ∣ p.addr.toNat)
    (gatewayIP : Option Addr) : (p.layout gatewayIP).map IPLayout.numbers =
      match gatewayIP with
      | none =>
        .ok ⟨p.addr.toNat, p.addr.toNat + 1, p.addr.toNat + p.size - 1 - 1, p.addr.toNat + p.size - 1⟩
      | some gateway =>
        if p.addr.toNat < gateway ∧ gateway < p.addr.toNat + p.size - 1 - 1 then
          .ok ⟨p.addr.toNat, gateway, p.addr.toNat + p.size - 1 - 1, p.addr.toNat + p.size - 1⟩
        else .error "invalid request: gateway must be a host address of the network other than the host alias" := by
  have hsize : 8 ≤ p.size := Nat.pow_le_pow_right (i := 3) (n := 2) (by decide) (by omega)
  have hlast := Block.lastAddr_toNat (p := p) (by omega) hp
  obtain ⟨host, hhost, hhostNat⟩ := prev_toNat (a := p.lastAddr) (by omega)
  obtain ⟨gw, hgw, hgwNat⟩ := next_toNat (a := p.addr) (by omega)
  rw [hlast] at hhostNat
  cases gatewayIP with
  | none =>
    simp only [Block.layout, hhost, hgw, Except.map, IPLayout.numbers, map_some, getD_some, hgwNat, hhostNat, hlast]
  | some gateway =>
    dsimp only [Addr] at gateway
    by_cases hv4 : gateway < 2 ^ 32
    · have hsome : NetAddr.ofAddr gateway = some (BitVec.ofNat 32 gateway) := if_pos hv4
      have hg : (BitVec.ofNat 32 gateway).toNat = gateway := by
        rw [BitVec.toNat_ofNat, Nat.mod_eq_of_lt hv4]
      have hrefused := gateway_refused_iff (Nat.le_trans hbits (by decide)) hp
        (BitVec.ofNat 32 gateway) hhostNat
      rw [hg] at hrefused
      by_cases hfits : p.addr.toNat < gateway ∧ gateway < p.addr.toNat + p.size - 1 - 1
      · have haccepted := mt hrefused.1 (not_not_intro hfits)
        simp only [Block.layout, hhost, hsome, if_neg haccepted, if_pos hfits, Except.map,
          IPLayout.numbers, map_some, getD_some, hhostNat, hlast, hg]
      · simp only [Block.layout, hhost, hsome, if_pos (hrefused.2 hfits), if_neg hfits, Except.map]
    · have hnone : NetAddr.ofAddr gateway = none := if_neg hv4
      have hfits : ¬ (p.addr.toNat < gateway ∧ gateway < p.addr.toNat + p.size - 1 - 1) := by omega
      simp only [Block.layout, hnone, Block.contains, Bool.not_false, Bool.true_or, if_true, if_neg hfits, Except.map]

theorem resolveIP_numbers (hv4 : spec.cidr.addr < 2 ^ 32) :
    (resolveIP spec).map IPLayout.numbers = resolve spec := by
  unfold resolveIP resolve
  rw [if_neg (Nat.not_le.2 hv4)]
  by_cases hname : validName spec.name
  swap
  · simp [hname, throw, throwThe, MonadExceptOf.throw, bind, Except.bind, Except.map]
  by_cases hbits : spec.cidr.bits < minPrefixBits ∨ spec.cidr.bits > maxPrefixBits
  · simp [hname, hbits, throw, throwThe, MonadExceptOf.throw, bind, Except.bind, Except.map]
  have hlow : 16 ≤ spec.block.bits := Nat.not_lt.1 fun h => hbits (.inl h)
  have hhigh : spec.block.bits ≤ 29 := Nat.not_lt.1 fun h => hbits (.inr h)
  have hdvd := Spec.size_dvd_block hv4
  have hlink := Block.overlapsLinkLocal_iff hlow hdvd
  have hlay := layout_numbers hhigh hdvd spec.gatewayIP
  rw [Spec.block_toNat hv4] at hlink hlay
  change _ ↔ spec.cidr.addr / 2 ^ (32 - spec.cidr.bits) * 2 ^ (32 - spec.cidr.bits) ≤ _ ∧
    _ ≤ spec.cidr.addr / 2 ^ (32 - spec.cidr.bits) * 2 ^ (32 - spec.cidr.bits) + 2 ^ (32 - spec.cidr.bits) - 1 at hlink
  by_cases hover : spec.block.overlapsLinkLocal = true
  · simp [hname, hbits, hover, hlink.1 hover, throw, throwThe, MonadExceptOf.throw, bind, Except.bind, Except.map]
  · have hno := mt hlink.2 hover
    simp only [hname, hbits, hover, Bool.not_true, Bool.false_eq_true, if_false]
    rw [if_neg hno]
    exact hlay

structure IPLayout.Laid (l : IPLayout) : Prop where
  bits : l.block.bits ≤ 29
  aligned : l.block.size ∣ l.block.addr.toNat
  network : l.network = some l.block.addr
  broadcast : l.broadcast = some l.block.lastAddr
  host : ∃ host : IPv4, l.host = some host ∧ host.toNat + 1 = l.block.lastAddr.toNat
  gateway : ∃ gw : IPv4, l.gateway = some gw

theorem layout_ok {p : Block} (h : p.layout gatewayIP = .ok l) :
    l.block = p ∧ l.network = some p.addr ∧ l.broadcast = some p.lastAddr ∧ l.host = NetAddr.prev (some p.lastAddr) ∧
      (l.gateway = NetAddr.next (some p.addr) ∨ p.contains l.gateway = true) := by
  unfold Block.layout at h
  cases gatewayIP with
  | none =>
    cases h
    exact ⟨rfl, rfl, rfl, rfl, .inl rfl⟩
  | some gateway =>
    simp only at h
    split at h <;> cases h
    rename_i haccepted
    refine ⟨rfl, rfl, rfl, rfl, .inr ?_⟩
    simp only [Bool.or_eq_true, Bool.not_eq_true', not_or, Bool.not_eq_false] at haccepted
    exact haccepted.1.1.1

theorem Block.laid {p : Block} (hbits : p.bits ≤ 29)
    (hp : p.size ∣ p.addr.toNat) (h : p.layout gatewayIP = .ok l) : l.Laid := by
  have hsize : 8 ≤ p.size := Nat.pow_le_pow_right (i := 3) (n := 2) (by decide) (by omega)
  have hlast := Block.lastAddr_toNat (p := p) (by omega) hp
  obtain ⟨host, hhost, hhostNat⟩ := prev_toNat (a := p.lastAddr) (by omega)
  obtain ⟨gw, hgw, -⟩ := next_toNat (a := p.addr) (by omega)
  obtain ⟨rfl, hnetwork, hbroadcast, hl, hgateway⟩ := layout_ok h
  refine ⟨hbits, hp, hnetwork, hbroadcast, ⟨host, hl.trans hhost, by omega⟩, ?_⟩
  cases hgateway with
  | inl hnext => exact ⟨gw, hnext.trans hgw⟩
  | inr hin =>
    cases hg : l.gateway with
    | none =>
      rw [hg] at hin
      cases hin
    | some gateway => exact ⟨gateway, rfl⟩

theorem resolveIP_ok (h : resolveIP spec = .ok l) :
    l.Laid ∧ l.block = spec.block ∧ resolve spec = .ok l.numbers := by
  have hlaid : spec.cidr.addr < 2 ^ 32 ∧ spec.cidr.bits ≤ 29 ∧
      spec.block.layout spec.gatewayIP = .ok l := by
    unfold resolveIP at h
    split at h
    · cases h
    split at h
    · cases h
    split at h
    · cases h
    split at h
    · cases h
    rename_i hv4 hbits _
    exact ⟨Nat.not_le.1 hv4, Nat.not_lt.1 fun hlt => hbits (.inr hlt), h⟩
  obtain ⟨hv4, hbits, hlayout⟩ := hlaid
  have hnumbers := resolveIP_numbers hv4
  rw [h] at hnumbers
  obtain ⟨hblock, -⟩ := layout_ok hlayout
  exact ⟨Block.laid hbits (Spec.size_dvd_block hv4) hlayout, hblock, hnumbers.symm⟩

namespace IPLayout

theorem eachFrom_collects (g : NetAddr → σ → σ) {last : IPv4} (hl : l.broadcast = some last)
    (k : Nat) : ∀ (a : IPv4) (s : σ) (rounds : Nat), a.toNat + k = last.toNat → k < rounds →
      l.eachFrom (fun ip s => (g ip s, true)) rounds (some a) s =
        some ((((range' a.toNat k).map (BitVec.ofNat 32)).filter fun ip =>
          l.poolContains (some ip)).foldl (fun s ip => g (some ip) s) s) := by
  induction k with
  | zero =>
    intro a s rounds ha hr
    obtain ⟨r, rfl⟩ : ∃ r, rounds = r + 1 := ⟨rounds - 1, by omega⟩
    have hend : NetAddr.before (some a) l.broadcast = false := by
      rw [hl, NetAddr.before, decide_eq_false_iff_not, BitVec.lt_def]
      omega
    simp only [eachFrom, hend, Bool.false_eq_true, if_false, range'_zero, map_nil, filter_nil, foldl_nil]
  | succ k ih =>
    intro a s rounds ha hr
    obtain ⟨r, rfl⟩ : ∃ r, rounds = r + 1 := ⟨rounds - 1, by omega⟩
    have hgo : NetAddr.before (some a) l.broadcast = true := by
      rw [hl, NetAddr.before, decide_eq_true_iff, BitVec.lt_def]
      omega
    -- the broadcast address is above, so the successor does not leave the address space
    obtain ⟨b, hnext, hb⟩ := next_toNat (a := a) (by omega)
    have hrest := fun s => ih b s r (by omega) (by omega)
    rw [hb] at hrest
    have hself : BitVec.ofNat 32 a.toNat = a := BitVec.ofNat_toNat ..
    rw [range'_succ, map_cons, hself, filter_cons]
    cases hin : l.poolContains (some a) with
    | false =>
      simp only [eachFrom, hgo, hin, hnext, hrest, if_true, Bool.not_false, Bool.false_eq_true, if_false]
    | true =>
      simp only [eachFrom, hgo, hin, hnext, hrest, if_true, Bool.not_true, Bool.false_eq_true, if_false, foldl_cons]

def visited (l : IPLayout) : List IPv4 :=
  ((range' (l.block.addr.toNat + 1) (l.block.size - 2)).map (BitVec.ofNat 32)).filter fun ip =>
    l.poolContains (some ip)

theorem Laid.eachPool (h : l.Laid) (g : NetAddr → σ → σ) (s : σ) {rounds : Nat}
    (hr : l.block.size ≤ rounds) : l.eachPool (fun ip s => (g ip s, true)) rounds s =
      some (l.visited.foldl (fun s ip => g (some ip) s) s) := by
  have hbits := h.bits
  have hsize : 8 ≤ l.block.size := Nat.pow_le_pow_right (i := 3) (n := 2) (by decide) (by omega)
  have hlast := Block.lastAddr_toNat (p := l.block) (by omega) h.aligned
  obtain ⟨first, hnext, hfirst⟩ := next_toNat (a := l.block.addr) (by omega)
  have hall := eachFrom_collects g h.broadcast (l.block.size - 2) first s rounds (by omega) (by omega)
  rw [hfirst] at hall
  rw [IPLayout.eachPool, h.network, hnext, hall]
  rfl

theorem Laid.poolContains_iff (h : l.Laid) (hl : resolve spec = .ok l.numbers) (ip : IPv4) :
    l.poolContains (some ip) = true ↔ ip.toNat ∈ l.numbers.pool := by
  have hlast := Block.lastAddr_toNat (Nat.le_trans h.bits (by decide)) h.aligned
  obtain ⟨host, hhost, hhostNat⟩ := h.host
  obtain ⟨gw, hgw⟩ := h.gateway
  rw [Layout.mem_pool_iff hl]
  simp only [poolContains, numbers, h.network, h.broadcast, hhost, hgw, Bool.and_eq_true,
    bne_iff_ne, ne_eq, some.injEq, map_some, getD_some, ← BitVec.toNat_inj, Block.contains_iff h.aligned]
  dsimp only [Addr]
  omega

theorem Laid.numbers_eq (h : l.Laid) : l.numbers.network = l.block.addr.toNat ∧
    l.numbers.broadcast = l.block.addr.toNat + l.block.size - 1 := by
  rw [← Block.lastAddr_toNat (Nat.le_trans h.bits (by decide)) h.aligned, numbers, h.network, h.broadcast]
  exact ⟨rfl, rfl⟩

theorem Laid.mem_visited (h : l.Laid) (hl : resolve spec = .ok l.numbers) (ip : IPv4) :
    ip ∈ l.visited ↔ l.poolContains (some ip) = true := by
  rw [visited, mem_filter]
  constructor
  · intro hin
    exact hin.2
  · intro hin
    have hpool := Layout.mem_pool ((h.poolContains_iff hl ip).1 hin)
    rw [h.numbers_eq.1, h.numbers_eq.2] at hpool
    refine ⟨List.mem_map.2 ⟨ip.toNat, ?_, BitVec.ofNat_toNat ..⟩, hin⟩
    rw [mem_range'_1]
    dsimp only [Addr] at hpool
    omega

theorem Laid.visited_sorted (h : l.Laid) : l.visited.Pairwise (· < ·) := by
  have hlast := Block.lastAddr_toNat (Nat.le_trans h.bits (by decide)) h.aligned
  have hbound := l.block.lastAddr.isLt
  apply List.Pairwise.filter
  rw [pairwise_map]
  apply Pairwise.imp_of_mem _ pairwise_lt_range'
  intro a b ha hb hlt
  rw [mem_range'_1] at ha hb
  rw [BitVec.lt_def, BitVec.toNat_ofNat, BitVec.toNat_ofNat, Nat.mod_eq_of_lt (by omega), Nat.mod_eq_of_lt (by omega)]
  exact hlt

theorem Laid.visited_numbers (h : l.Laid) (hl : resolve spec = .ok l.numbers) :
    l.visited.map BitVec.toNat = l.numbers.pool := by
  have hsorted : (l.visited.map BitVec.toNat).Pairwise (· < ·) :=
    pairwise_map.2 (h.visited_sorted.imp fun hlt => BitVec.lt_def.1 hlt)
  apply hsorted.eq_of_mem_iff (Layout.pool_sorted _)
  intro n
  rw [List.mem_map]
  constructor
  · intro hin
    obtain ⟨ip, hip, rfl⟩ := hin
    exact (h.poolContains_iff hl ip).1 ((h.mem_visited hl ip).1 hip)
  · intro hin
    have hlt : n < 2 ^ 32 := by
      have hpool := Layout.mem_pool hin
      have hlast := Block.lastAddr_toNat (Nat.le_trans h.bits (by decide)) h.aligned
      have hbound := l.block.lastAddr.isLt
      rw [h.numbers_eq.2] at hpool
      dsimp only [Addr] at hpool
      omega
    have hn : (BitVec.ofNat 32 n).toNat = n := by
      rw [BitVec.toNat_ofNat, Nat.mod_eq_of_lt hlt]
    refine ⟨BitVec.ofNat 32 n, (h.mem_visited hl _).2 ((h.poolContains_iff hl _).2 ?_), hn⟩
    rw [hn]
    exact hin

end IPLayout

theorem address_layout (spec : Spec) (l : IPLayout) (h : resolveIP spec = .ok l) : l.block = spec.block ∧
    [l.network, l.gateway, l.host, l.broadcast].Nodup ∧
    (∀ ip ∈ [l.network, l.gateway, l.host, l.broadcast], spec.block.contains ip = true) ∧ ∃ visited : List IPv4,
      (∀ (σ : Type) (fn : NetAddr → σ → σ) (s : σ), ∃ enough, ∀ rounds ≥ enough,
        l.eachPool (fun ip s => (fn ip s, true)) rounds s = some (visited.foldl (fun s ip => fn (some ip) s) s)) ∧
      visited.Pairwise (· < ·) ∧ (∀ ip : NetAddr, l.poolContains ip = true ↔ ∃ a ∈ visited, ip = some a) ∧
      visited.length = l.poolSize := by
  obtain ⟨hlaid, hblock, hl⟩ := resolveIP_ok h
  obtain ⟨host, hhost, hhostNat⟩ := hlaid.host
  obtain ⟨gw, hgw⟩ := hlaid.gateway
  have hlast := Block.lastAddr_toNat (Nat.le_trans hlaid.bits (by decide)) hlaid.aligned
  have hpos : 0 < l.block.size := Nat.two_pow_pos _
  obtain ⟨-, -, hlow, hhigh⟩ := resolve_layout hl
  simp only [IPLayout.numbers, hlaid.network, hlaid.broadcast, hhost, hgw, map_some,
    getD_some] at hlow hhigh
  dsimp only [Addr] at hlow hhigh
  refine ⟨hblock, ?_, ?_, l.visited, ?_, hlaid.visited_sorted, ?_, ?_⟩
  · rw [hlaid.network, hlaid.broadcast, hhost, hgw]
    simp only [nodup_cons, mem_cons, not_mem_nil, or_false, not_or, some.injEq,
      ← BitVec.toNat_inj, nodup_nil, and_true, not_false_eq_true]
    omega
  · rw [← hblock, hlaid.network, hlaid.broadcast, hhost, hgw]
    simp only [forall_mem_cons, Block.contains_iff hlaid.aligned, not_mem_nil,
      false_imp_iff, implies_true, and_true]
    omega
  · intro σ fn s
    exact ⟨l.block.size, fun rounds hr => hlaid.eachPool fn s hr⟩
  · intro ip
    cases ip with
    | none => simp [IPLayout.poolContains, Block.contains]
    | some ip =>
      rw [← hlaid.mem_visited hl ip]
      simp
  · have hlength := congrArg length (hlaid.visited_numbers hl)
    rw [length_map, Layout.pool_length hl] at hlength
    rw [hlength, IPLayout.poolSize, hblock]
    rfl

theorem address_layout_last : ∃ l, resolveIP ⟨"last", ⟨0xfffffff8, 29⟩, none, "", false, false⟩ = .ok l ∧
    l.broadcast = some 0xffffffff ∧ l.poolSize = 4 ∧
    ∃ visited : List IPv4, visited.Pairwise (· < ·) ∧ visited.length = 4 ∧
      ∀ ip : NetAddr, l.poolContains ip = true ↔ ∃ a ∈ visited, ip = some a := by
  have hl : ∃ l, resolveIP ⟨"last", ⟨0xfffffff8, 29⟩, none, "", false, false⟩ = .ok l ∧
      l.broadcast = some 0xffffffff ∧ l.poolSize = 4 := ⟨_, rfl, by decide, by decide⟩
  obtain ⟨l, hok, hlast, hsize⟩ := hl
  obtain ⟨-, -, -, visited, -, hsorted, hmem, hlength⟩ := address_layout _ l hok
  exact ⟨l, hok, hlast, hsize, visited, hsorted, hlength.trans hsize, hmem⟩

end Network
end VmManager
