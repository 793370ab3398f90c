import VmManager.Encoding.Hex

/-! Base64 with padding, in the standard alphabet: three bytes are four digits of six bits. -/
namespace VmManager.Encoding.Base64
open List

def digit (n : Nat) : Char :=
  if n < 26 then Char.ofNat (65 + n)
  else if n < 52 then Char.ofNat (71 + n)
  else if n < 62 then Char.ofNat (n - 4)
  else if n = 62 then '+' else '/'

def digitValue (c : Char) : Option Nat :=
  if 'A' ≤ c ∧ c ≤ 'Z' then some (c.toNat - 65)
  else if 'a' ≤ c ∧ c ≤ 'z' then some (c.toNat - 71)
  else if '0' ≤ c ∧ c ≤ '9' then some (c.toNat + 4)
  else if c = '+' then some 62
  else if c = '/' then some 63
  else none

def encode : Bytes → Text
  | [] => []
  | [a] => [digit (a.toNat / 4), digit (a.toNat % 4 * 16), '=', '=']
  | [a, b] =>
    [digit (a.toNat / 4), digit (a.toNat % 4 * 16 + b.toNat / 16), digit (b.toNat % 16 * 4), '=']
  | a :: b :: c :: rest =>
    digit (a.toNat / 4) :: digit (a.toNat % 4 * 16 + b.toNat / 16) ::
      digit (b.toNat % 16 * 4 + c.toNat / 64) :: digit (c.toNat % 64) :: encode rest

def byte₁ (x y : Nat) : UInt8 := UInt8.ofNat (x * 4 + y / 16)
def byte₂ (y z : Nat) : UInt8 := UInt8.ofNat (y % 16 * 16 + z / 4)
def byte₃ (z w : Nat) : UInt8 := UInt8.ofNat (z % 4 * 64 + w)

def decode : Text → Option Bytes
  | [] => some []
  | c₁ :: c₂ :: c₃ :: c₄ :: rest => do
    let x ← digitValue c₁
    let y ← digitValue c₂
    if c₃ = '=' ∧ c₄ = '=' ∧ rest = [] then return [byte₁ x y]
    let z ← digitValue c₃
    if c₄ = '=' ∧ rest = [] then return [byte₁ x y, byte₂ y z]
    let w ← digitValue c₄
    let bytes ← decode rest
    return byte₁ x y :: byte₂ y z :: byte₃ z w :: bytes
  | _ => none

theorem digits : ∀ n < 64, digitValue (digit n) = some n ∧ 0x2b ≤ (digit n).toNat ∧ (digit n).toNat ≤ 0x7a ∧
    digit n ≠ '=' := by
  decide

theorem digitValue_digit {n : Nat} (h : n < 64) : digitValue (digit n) = some n := (digits n h).1

theorem digit_ne {n : Nat} (h : n < 64) : digit n ≠ '=' := (digits n h).2.2.2

theorem byte₁_eq (a : UInt8) {y : Nat} (hy : y / 16 = a.toNat % 4) : byte₁ (a.toNat / 4) y = a := by
  have hsum : a.toNat / 4 * 4 + y / 16 = a.toNat := by omega
  rw [byte₁, hsum, UInt8.ofNat_toNat]

theorem byte₂_eq (b : UInt8) {y z : Nat} (hy : y % 16 = b.toNat / 16) (hz : z / 4 = b.toNat % 16) :
    byte₂ y z = b := by
  have hsum : y % 16 * 16 + z / 4 = b.toNat := by omega
  rw [byte₂, hsum, UInt8.ofNat_toNat]

theorem byte₃_eq (c : UInt8) {z : Nat} (hz : z % 4 = c.toNat / 64) : byte₃ z (c.toNat % 64) = c := by
  have hsum : z % 4 * 64 + c.toNat % 64 = c.toNat := by omega
  rw [byte₃, hsum, UInt8.ofNat_toNat]

theorem decode_encode (bs : Bytes) : decode (encode bs) = some bs := by
  induction bs using encode.induct with
  | case1 => rfl
  | case2 a =>
    have ha := a.toNat_lt
    have h₁ := digitValue_digit (n := a.toNat / 4) (by omega)
    have h₂ := digitValue_digit (n := a.toNat % 4 * 16) (by omega)
    simp only [encode, decode, h₁, h₂]
    simp [byte₁_eq a (y := a.toNat % 4 * 16) (by omega)]
  | case3 a b =>
    have ha := a.toNat_lt
    have hb := b.toNat_lt
    have h₁ := digitValue_digit (n := a.toNat / 4) (by omega)
    have h₂ := digitValue_digit (n := a.toNat % 4 * 16 + b.toNat / 16) (by omega)
    have h₃ := digitValue_digit (n := b.toNat % 16 * 4) (by omega)
    have hne := digit_ne (n := b.toNat % 16 * 4) (by omega)
    simp only [encode, decode, h₁, h₂, h₃]
    simp [hne, byte₁_eq a (y := a.toNat % 4 * 16 + b.toNat / 16) (by omega),
      byte₂_eq b (y := a.toNat % 4 * 16 + b.toNat / 16) (z := b.toNat % 16 * 4) (by omega) (by omega)]
  | case4 a b c rest ih =>
    have ha := a.toNat_lt
    have hb := b.toNat_lt
    have hc := c.toNat_lt
    have h₁ := digitValue_digit (n := a.toNat / 4) (by omega)
    have h₂ := digitValue_digit (n := a.toNat % 4 * 16 + b.toNat / 16) (by omega)
    have h₃ := digitValue_digit (n := b.toNat % 16 * 4 + c.toNat / 64) (by omega)
    have h₄ := digitValue_digit (n := c.toNat % 64) (by omega)
    have hne₃ := digit_ne (n := b.toNat % 16 * 4 + c.toNat / 64) (by omega)
    have hne₄ := digit_ne (n := c.toNat % 64) (by omega)
    simp only [encode, decode, h₁, h₂, h₃, h₄, ih]
    simp [hne₃, hne₄, byte₁_eq a (y := a.toNat % 4 * 16 + b.toNat / 16) (by omega),
      byte₂_eq b (y := a.toNat % 4 * 16 + b.toNat / 16) (z := b.toNat % 16 * 4 + c.toNat / 64) (by omega)
        (by omega),
      byte₃_eq c (z := b.toNat % 16 * 4 + c.toNat / 64) (by omega)]

def Graphic (x : Char) : Prop := 0x2b ≤ x.toNat ∧ x.toNat ≤ 0x7a

theorem graphic_digit {n : Nat} (h : n < 64) : Graphic (digit n) := ⟨(digits n h).2.1, (digits n h).2.2.1⟩

theorem graphic_padding : Graphic '=' := by
  unfold Graphic
  decide

theorem graphic_of_mem_encode {bs : Bytes} : ∀ x ∈ encode bs, Graphic x := by
  induction bs using encode.induct with
  | case1 => exact nofun
  | case2 a =>
    have ha := a.toNat_lt
    simp only [encode, forall_mem_cons]
    exact ⟨graphic_digit (by omega), graphic_digit (by omega), graphic_padding, graphic_padding, nofun⟩
  | case3 a b =>
    have ha := a.toNat_lt
    have hb := b.toNat_lt
    simp only [encode, forall_mem_cons]
    exact ⟨graphic_digit (by omega), graphic_digit (by omega), graphic_digit (by omega), graphic_padding, nofun⟩
  | case4 a b c rest ih =>
    have ha := a.toNat_lt
    have hb := b.toNat_lt
    have hc := c.toNat_lt
    simp only [encode, forall_mem_cons]
    exact ⟨graphic_digit (by omega), graphic_digit (by omega), graphic_digit (by omega), graphic_digit (by omega), ih⟩

end VmManager.Encoding.Base64
