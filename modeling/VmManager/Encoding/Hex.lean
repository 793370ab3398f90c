import Mathlib.Data.List.Basic

/-! Hexadecimal text, as Go's encoding/hex reads and writes it: lower case on the way out, either case
on the way in. Text is the list of its characters. A text that decodes is, in lower case, the encoding
of its bytes, so comparing lower-case text is comparing bytes. -/
namespace VmManager.Encoding
open List Option
variable {n : Nat} {c : Char} {t : Text}

abbrev Bytes := List UInt8
abbrev Text := List Char

instance : LawfulBEq Text := inferInstance

def toLower (t : Text) : Text := t.map Char.toLower

def hexDigit (n : Nat) : Char :=
  if n < 10 then Char.ofNat (48 + n) else Char.ofNat (87 + n)

def hexValue (c : Char) : Option Nat :=
  if 48 ≤ c.toNat ∧ c.toNat ≤ 57 then some (c.toNat - 48)
  else if 97 ≤ c.toNat ∧ c.toNat ≤ 102 then some (c.toNat - 87)
  else if 65 ≤ c.toNat ∧ c.toNat ≤ 70 then some (c.toNat - 55)
  else none

def hexPair (b : UInt8) : List Char := [hexDigit (b.toNat / 16), hexDigit (b.toNat % 16)]

def encodeToString : Bytes → Text
  | [] => []
  | b :: bs => hexPair b ++ encodeToString bs

def decodeString : Text → Option Bytes
  | [] => some []
  | [_] => none
  | a :: b :: rest => do
    let hi ← hexValue a
    let lo ← hexValue b
    let bs ← decodeString rest
    some (UInt8.ofNat (16 * hi + lo) :: bs)

theorem hexValue_hexDigit (h : n < 16) : hexValue (hexDigit n) = some n := by
  revert n
  decide

theorem hexValue_lt (h : hexValue c = some n) : n < 16 := by
  simp only [hexValue] at h
  split at h
  · obtain rfl := some.inj h; omega
  · split at h
    · obtain rfl := some.inj h; omega
    · split at h
      · obtain rfl := some.inj h; omega
      · cases h

private theorem char_eq_of_toNat {c d : Char} (h : c.toNat = d.toNat) : c = d := by
  apply Char.ext
  apply UInt32.toNat_inj.1
  exact h

theorem toLower_of_hexValue (h : hexValue c = some n) :
    c.toLower = hexDigit n := by
  have digits : ∀ k : Fin 103, (Char.ofNat k).toNat = k ∧
      ∀ m, hexValue (Char.ofNat k) = some m → (Char.ofNat k).toLower = hexDigit m := by
    decide
  have hc : c.toNat < 103 := by
    simp only [hexValue] at h
    split at h
    · omega
    · split at h
      · omega
      · split at h
        · omega
        · cases h
  obtain ⟨hk, hd⟩ := digits ⟨c.toNat, hc⟩
  have hcc : Char.ofNat c.toNat = c := char_eq_of_toNat hk
  simp only [hcc] at hd
  exact hd n h

theorem decodeString_encodeToString (b : Bytes) : decodeString (encodeToString b) = some b := by
  induction b with
  | nil => rfl
  | cons x xs ih =>
    have hx : x.toNat < 256 := x.toNat_lt
    have hi := hexValue_hexDigit (n := x.toNat / 16) (by omega)
    have lo := hexValue_hexDigit (n := x.toNat % 16) (by omega)
    have hb : 16 * (x.toNat / 16) + x.toNat % 16 = x.toNat := by omega
    simp only [encodeToString, hexPair, cons_append, nil_append, decodeString, hi, lo, ih,
      bind_eq_bind, bind_some, hb, UInt8.ofNat_toNat]

theorem encodeToString_inj {a b : Bytes} : encodeToString a = encodeToString b ↔ a = b := by
  refine ⟨fun h => ?_, fun h => h ▸ rfl⟩
  have := congrArg decodeString h
  simpa [decodeString_encodeToString] using this

theorem toLower_of_decodeString {b : Bytes} (h : decodeString t = some b) :
    toLower t = encodeToString b := by
  induction t using decodeString.induct generalizing b with
  | case1 =>
    obtain rfl := some.inj h
    rfl
  | case2 c => cases h
  | case3 x y rest ih =>
    simp only [decodeString, bind_eq_bind, bind_eq_some_iff, some.injEq] at h
    obtain ⟨hi, hhi, lo, hlo, bs, hbs, rfl⟩ := h
    have h1 := hexValue_lt hhi
    have h2 := hexValue_lt hlo
    have hb : (UInt8.ofNat (16 * hi + lo)).toNat = 16 * hi + lo := by
      simp only [UInt8.toNat_ofNat']
      omega
    have hdiv : (16 * hi + lo) / 16 = hi := by omega
    have hmod : (16 * hi + lo) % 16 = lo := by omega
    have htail := ih hbs
    unfold toLower at htail
    simp only [toLower, map_cons, encodeToString, hexPair, hb, hdiv, hmod, cons_append,
      nil_append, toLower_of_hexValue hhi, toLower_of_hexValue hlo, htail]

theorem encodeToString_eq_toLower_iff {b v : Bytes} (h : decodeString t = some b) :
    toLower t = encodeToString v ↔ v = b := by
  rw [toLower_of_decodeString h, encodeToString_inj]
  exact eq_comm

theorem encodeToString_length (b : Bytes) : (encodeToString b).length = 2 * b.length := by
  induction b with
  | nil => rfl
  | cons x xs ih =>
    simp only [encodeToString, hexPair, length_append, length_cons, length_nil, ih]
    omega

example : decodeString ['0', '0', 'f', 'F'] = some [0, 255] := by decide

end VmManager.Encoding
