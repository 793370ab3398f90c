import VmManager.Encoding.Base64
import VmManager.Runtime.Command

/-! Credentials as SMBIOS strings. A text value is written as it is and any other in Base64, under a prefix
of its own; what is text is decided character by character, where bytes that are no UTF-8 count as the
replacement character. A Go string is the list of its bytes, each of them a character. -/
namespace VmManager.Runtime.Credentials
open Encoding Runtime.Command List Option

/-! The characters of a string, as Go's range loop gives them. -/
section runes

def runeError : Nat := 0xfffd

def isTail (b : Nat) : Bool := 0x80 ≤ b && b ≤ 0xbf

def isSecond (first b : Nat) : Bool :=
  (if first = 0xe0 then 0xa0 else if first = 0xf0 then 0x90 else 0x80) ≤ b &&
    b ≤ if first = 0xed then 0x9f else if first = 0xf4 then 0x8f else 0xbf

def decodeRune (b : Nat) (rest : List Nat) : Nat × Nat :=
  let c := rest.getD 0 0
  let d := rest.getD 1 0
  let e := rest.getD 2 0
  if b < 0x80 then (b, 1)
  else if 0xc2 ≤ b && b ≤ 0xdf && isTail c then (b % 32 * 64 + c % 64, 2)
  else if 0xe0 ≤ b && b ≤ 0xef && isSecond b c && isTail d then
    (b % 16 * 4096 + c % 64 * 64 + d % 64, 3)
  else if 0xf0 ≤ b && b ≤ 0xf4 && isSecond b c && isTail d && isTail e then
    (b % 8 * 262144 + c % 64 * 4096 + d % 64 * 64 + e % 64, 4)
  else (runeError, 1)

def runesFrom : Nat → List Nat → List Nat
  | _, [] => []
  | 0, b :: rest => (decodeRune b rest).1 :: runesFrom ((decodeRune b rest).2 - 1) rest
  | k + 1, _ :: rest => runesFrom k rest

def runes (t : Text) : List Nat := runesFrom 0 (t.map Char.toNat)

end runes

def latin1Print (r : Nat) : Bool := (0x20 ≤ r && r ≤ 0x7e) || (0xa1 ≤ r && r ≤ 0xff && r != 0xad)

/-- `unicode.IsPrint`, of which only the first characters and the two separators of lines and paragraphs
are known here. -/
structure Unicode where
  isPrint : Nat → Bool
  latin1 : ∀ r < 0x100, isPrint r = latin1Print r
  separators : isPrint 0x2028 = false ∧ isPrint 0x2029 = false

def printable (u : Unicode) (v : Text) : Bool := (runes v).all fun r => r == 0x20 || u.isPrint r

def bytesOf (t : Text) : Bytes := t.map fun c => UInt8.ofNat c.toNat
def textOf (bs : Bytes) : Text := bs.map fun b => Char.ofNat b.toNat

def golib (u : Unicode) (quote : Text → Text) : Golib where
  quote := quote
  printable := printable u
  base64 t := Base64.encode (bytesOf t)

def IsBytes (t : Text) : Prop := ∀ c ∈ t, c.toNat < 0x100

def cut (t : Text) : Option (Text × Text) :=
  match t.dropWhile (· ≠ '=') with
  | [] => none
  | _ :: value => some (t.takeWhile (· ≠ '='), value)

def readText (s : Text) : Option (Text × Text) :=
  if credentialPrefixText <+: s then cut (s.drop credentialPrefixText.length) else none

def readBinary (s : Text) : Option (Text × Text) :=
  if credentialBinaryPrefixText <+: s then do
    let (name, value) ← cut (s.drop credentialBinaryPrefixText.length)
    let bytes ← Base64.decode value
    return (name, textOf bytes)
  else none

def readCmdline (s : Text) : Option Text :=
  if cmdlineExtraPrefixText <+: s then some (s.drop cmdlineExtraPrefixText.length) else none

def readCredential (s : Text) : Option (Text × Text) := (readText s).or (readBinary s)

def isControl (r : Nat) : Bool := r < 0x20 || (0x7f ≤ r && r ≤ 0x9f) || r == 0x2028 || r == 0x2029

section lemmas
variable {u : Unicode} {quote : Text → Text} {name v t : Text}

theorem le_of_isTail {b : Nat} (h : isTail b = true) : 0x80 ≤ b := by
  simp only [isTail, Bool.and_eq_true, decide_eq_true_eq] at h
  exact h.1

theorem le_of_isSecond {a b : Nat} (h : isSecond a b = true) : 0x80 ≤ b := by
  simp only [isSecond, Bool.and_eq_true, decide_eq_true_eq] at h
  have hlow := h.1
  split at hlow
  · omega
  · split at hlow <;> omega

theorem decodeRune_ascii {b : Nat} (hb : b < 0x80) (rest : List Nat) : decodeRune b rest = (b, 1) := by
  simp only [decodeRune, if_pos hb]

theorem decodeRune_tails (b : Nat) (rest : List Nat) :
    ∀ x ∈ rest.take ((decodeRune b rest).2 - 1), 0x80 ≤ x := by
  have htake : ∀ n, (∀ i < n, 0x80 ≤ rest.getD i 0) → ∀ x ∈ rest.take n, 0x80 ≤ x := by
    intro n hall x hx
    obtain ⟨i, hi, rfl⟩ := mem_iff_getElem.1 hx
    have hi' : i < n ∧ i < rest.length := by simpa using hi
    have hget := hall i hi'.1
    rw [getD_eq_getElem?_getD, getElem?_eq_getElem hi'.2] at hget
    rw [getElem_take]
    exact hget
  unfold decodeRune
  dsimp only
  split
  · exact htake 0 (by omega)
  split
  · rename_i h
    rw [Bool.and_eq_true] at h
    refine htake 1 fun i hi => ?_
    rw [Nat.lt_one_iff.1 hi]
    exact le_of_isTail h.2
  split
  · rename_i h
    simp only [Bool.and_eq_true] at h
    refine htake 2 fun i hi => ?_
    match i with
    | 0 => exact le_of_isSecond h.1.2
    | 1 => exact le_of_isTail h.2
  split
  · rename_i h
    simp only [Bool.and_eq_true] at h
    refine htake 3 fun i hi => ?_
    match i with
    | 0 => exact le_of_isSecond h.1.1.2
    | 1 => exact le_of_isTail h.1.2
    | 2 => exact le_of_isTail h.2
  · exact htake 0 (by omega)

theorem mem_runesFrom {l : List Nat} {k b : Nat} (hk : ∀ x ∈ l.take k, 0x80 ≤ x) (hb : b < 0x80)
    (hmem : b ∈ l) : b ∈ runesFrom k l := by
  induction l generalizing k with
  | nil => cases hmem
  | cons a l ih =>
    cases k with
    | zero =>
      rcases mem_cons.1 hmem with rfl | hmem
      · rw [runesFrom, decodeRune_ascii hb]
        exact mem_cons_self
      · exact mem_cons_of_mem _ (ih (decodeRune_tails a l) hmem)
    | succ k =>
      have ha := hk a (by rw [take_succ_cons]; exact mem_cons_self)
      rcases mem_cons.1 hmem with rfl | hmem
      · omega
      · refine ih (fun x hx => hk x ?_) hmem
        exact mem_cons_of_mem a hx

theorem runes_append {a : Text} (ha : ∀ c ∈ a, c.toNat < 0x80) (t : Text) :
    runes (a ++ t) = a.map Char.toNat ++ runes t := by
  induction a with
  | nil => rfl
  | cons c a ih =>
    have hc := ha c mem_cons_self
    have hrest := ih (forall_mem_cons.1 ha).2
    rw [runes] at hrest ⊢
    rw [cons_append, map_cons, runesFrom, decodeRune_ascii hc, map_cons, cons_append]
    exact congrArg (c.toNat :: ·) hrest

theorem textOf_bytesOf (h : IsBytes t) : textOf (bytesOf t) = t := by
  rw [textOf, bytesOf, List.map_map]
  refine (map_congr_left fun c hc => ?_).trans (List.map_id t)
  have hlt : c.toNat < UInt8.size := h c hc
  rw [Function.comp_apply, UInt8.toNat_ofNat_of_lt' hlt, Char.ofNat_toNat]
  rfl

theorem cut_append (h : '=' ∉ name) (v : Text) : cut (name ++ '=' :: v) = some (name, v) := by
  have hall : ∀ c ∈ name, decide (c ≠ '=') = true := fun c hc => decide_eq_true fun he => h (he ▸ hc)
  rw [cut, dropWhile_append_of_pos hall, takeWhile_append_of_pos hall]
  simp

theorem not_prefix_append {a b : Text} (n : Nat) (ha : n ≤ a.length) (hb : n ≤ b.length)
    (h : a.take n ≠ b.take n) (t : Text) : ¬ a <+: b ++ t := by
  rintro ⟨r, hr⟩
  have heq := congrArg (take n) hr
  rw [take_append_of_le_length ha, take_append_of_le_length hb] at heq
  exact h heq

def Plain (t : Text) : Prop := ∀ c ∈ t, 0x20 ≤ c.toNat ∧ c.toNat ≤ 0x7e

theorem validName {lib : Golib} (h : validateCredentialName lib name = .ok ()) : '=' ∉ name ∧ Plain name := by
  unfold validateCredentialName at h
  split at h
  · cases h
  split at h
  · cases h
  rename_i hany
  simp only [List.any_eq_true, not_exists, not_and, Bool.not_eq_true, Bool.or_eq_false_iff,
    decide_eq_false_iff_not, beq_eq_false_iff_ne] at hany
  refine ⟨fun hmem => (hany '=' hmem).2 rfl, fun c hc => ?_⟩
  have hlow : ¬ c < ' ' := (hany c hc).1.1.1.1
  have hhigh : ¬ '~' < c := (hany c hc).1.1.1.2
  exact ⟨Nat.le_of_not_lt hlow, Nat.le_of_not_lt hhigh⟩

theorem plain_append {a b : Text} (ha : Plain a) (hb : Plain b) : Plain (a ++ b) := by
  intro c hc
  exact (mem_append.1 hc).elim (ha c) (hb c)

theorem plain_text : Plain credentialPrefixText := forall_iff_forall_mem.1 (by decide +kernel)

theorem plain_binary : Plain credentialBinaryPrefixText := forall_iff_forall_mem.1 (by decide +kernel)

theorem plain_base64 (bs : Bytes) : Plain (Base64.encode bs) := by
  intro c hc
  obtain ⟨hlow, hhigh⟩ := Base64.graphic_of_mem_encode c hc
  omega

theorem renderCredential_eq (u : Unicode) (quote : Text → Text) (name v : Text) : ∃ kind value,
    renderCredential (golib u quote) name v = kind ++ (name ++ '=' :: value) ∧
    (kind = credentialPrefixText ∧ value = v ∧ printable u v = true ∨
      kind = credentialBinaryPrefixText ∧ value = Base64.encode (bytesOf v)) := by
  unfold renderCredential
  cases hp : (golib u quote).printable v with
  | true =>
    exact ⟨_, _, rfl, .inl ⟨rfl, rfl, hp⟩⟩
  | false =>
    exact ⟨_, _, rfl, .inr ⟨rfl, rfl⟩⟩

theorem text_not_binary (t : Text) : ¬ credentialBinaryPrefixText <+: credentialPrefixText ++ t :=
  not_prefix_append 22 (by decide +kernel) (by decide +kernel) (by decide +kernel) t

theorem binary_not_text (t : Text) : ¬ credentialPrefixText <+: credentialBinaryPrefixText ++ t :=
  not_prefix_append 22 (by decide +kernel) (by decide +kernel) (by decide +kernel) t

theorem readCredential_render (hname : '=' ∉ name) (hv : IsBytes v) :
    readCredential (renderCredential (golib u quote) name v) = some (name, v) := by
  obtain ⟨kind, value, hs, ⟨rfl, rfl, -⟩ | ⟨rfl, rfl⟩⟩ := renderCredential_eq u quote name v
  · rw [hs, readCredential, readText, if_pos (prefix_append ..), drop_left, cut_append hname]
    rfl
  · rw [hs, readCredential, readText, if_neg (binary_not_text _), none_or, readBinary,
      if_pos (prefix_append ..), drop_left, cut_append hname]
    simp [Base64.decode_encode, textOf_bytesOf hv]

theorem one_prefix (u : Unicode) (quote : Text → Text) (name v : Text) :
    ¬ (credentialPrefixText <+: renderCredential (golib u quote) name v ∧
      credentialBinaryPrefixText <+: renderCredential (golib u quote) name v) ∧
    readCmdline (renderCredential (golib u quote) name v) = none := by
  obtain ⟨kind, value, hs, hkind⟩ := renderCredential_eq u quote name v
  rw [hs, readCmdline]
  rcases hkind with ⟨rfl, -⟩ | ⟨rfl, -⟩
  · refine ⟨fun h => text_not_binary _ h.2, if_neg ?_⟩
    exact not_prefix_append 12 (by decide +kernel) (by decide +kernel) (by decide +kernel) _
  · refine ⟨fun h => binary_not_text _ h.1, if_neg ?_⟩
    exact not_prefix_append 12 (by decide +kernel) (by decide +kernel) (by decide +kernel) _

theorem not_isControl_of_plain {r : Nat} (h : 0x20 ≤ r ∧ r ≤ 0x7e) : isControl r = false := by
  simp only [isControl, Bool.or_eq_false_iff, Bool.and_eq_false_iff, decide_eq_false_iff_not, beq_eq_false_iff_ne]
  omega

theorem not_isControl_of_print {r : Nat} (h : u.isPrint r = true) : isControl r = false := by
  have hlatin : r < 0x100 → latin1Print r = true := fun hr => (u.latin1 r hr).symm.trans h
  have hsep : r ≠ 0x2028 ∧ r ≠ 0x2029 := by
    refine ⟨?_, ?_⟩
    · rintro rfl
      cases h.symm.trans u.separators.1
    · rintro rfl
      cases h.symm.trans u.separators.2
  simp only [latin1Print, Bool.or_eq_true, Bool.and_eq_true, decide_eq_true_eq, bne_iff_ne] at hlatin
  simp only [isControl, Bool.or_eq_false_iff, Bool.and_eq_false_iff, decide_eq_false_iff_not, beq_eq_false_iff_ne]
  omega

/-- No byte and no character of the string is a control character or ends a line. -/
def OneLine (s : Text) : Prop := (∀ c ∈ s, 0x20 ≤ c.toNat ∧ c.toNat ≠ 0x7f) ∧ ∀ r ∈ runes s, isControl r = false

theorem oneLine_printable (h : printable u v = true) : OneLine v := by
  have hall : ∀ r ∈ runes v, isControl r = false := by
    intro r hr
    have hprint := List.all_eq_true.1 h r hr
    rw [Bool.or_eq_true, beq_iff_eq] at hprint
    rcases hprint with rfl | hprint
    · decide
    · exact not_isControl_of_print hprint
  refine ⟨fun c hc => ?_, hall⟩
  by_cases hascii : c.toNat < 0x80
  · have hcontrol := hall c.toNat (mem_runesFrom nofun hascii (List.mem_map_of_mem hc))
    simp only [isControl, Bool.or_eq_false_iff, Bool.and_eq_false_iff, decide_eq_false_iff_not,
      beq_eq_false_iff_ne] at hcontrol
    omega
  · omega

theorem oneLine_append {a : Text} (ha : Plain a) (ht : OneLine t) : OneLine (a ++ t) := by
  have hascii : ∀ c ∈ a, c.toNat < 0x80 := by
    intro c hc
    have := ha c hc
    omega
  refine ⟨fun c hc => ?_, fun r hr => ?_⟩
  · rcases mem_append.1 hc with hc | hc
    · have := ha c hc
      omega
    · exact ht.1 c hc
  · rw [runes_append hascii] at hr
    rcases mem_append.1 hr with hr | hr
    · obtain ⟨c, hc, rfl⟩ := List.mem_map.1 hr
      exact not_isControl_of_plain (ha c hc)
    · exact ht.2 r hr

theorem oneLine_render (hname : Plain name) : OneLine (renderCredential (golib u quote) name v) := by
  have hequals : Plain ['='] := forall_mem_singleton.2 (by decide)
  obtain ⟨kind, value, hs, hkind⟩ := renderCredential_eq u quote name v
  have hform : kind ++ (name ++ '=' :: value) = kind ++ (name ++ ['=']) ++ value := by simp
  rw [hs, hform]
  rcases hkind with ⟨rfl, rfl, hp⟩ | ⟨rfl, rfl⟩
  · exact oneLine_append (plain_append plain_text (plain_append hname hequals)) (oneLine_printable hp)
  · have hall := plain_append (plain_append plain_binary (plain_append hname hequals))
      (plain_base64 (bytesOf v))
    have hempty : OneLine [] := ⟨nofun, nofun⟩
    simpa using oneLine_append hall hempty

end lemmas

section map
variable {u : Unicode} {quote : Text → Text} {creds : GoMap Text Text}

def sorted (creds : GoMap Text Text) : List (Text × Text) :=
  (creds.keys.insertionSort (· ≤ ·)).map fun n => (n, (creds.get n).getD [])

theorem get_of_mem {n : Text} (h : n ∈ creds.keys.insertionSort (· ≤ ·)) :
    n ∈ creds.keys ∧ creds.get n = some ((creds.get n).getD []) := by
  have hkey : n ∈ creds.keys := (mem_insertionSort _).1 h
  obtain ⟨v, hv⟩ := ne_none_iff_exists'.1 (GoMap.mem_keys_iff.1 hkey)
  exact ⟨hkey, by rw [hv]; rfl⟩

theorem map_readCredential (hnames : ∀ n ∈ creds.keys, '=' ∉ n) (hvalues : ∀ n v, creds.get n = some v → IsBytes v) :
    (renderCredentials (golib u quote) creds).map readCredential = (sorted creds).map some := by
  rw [renderCredentials, sorted, List.map_map, List.map_map]
  refine map_congr_left fun n hn => ?_
  obtain ⟨hkey, hget⟩ := get_of_mem hn
  exact readCredential_render (hnames n hkey) (hvalues n _ hget)

theorem lookup_sorted (n : Text) : (sorted creds).lookup n = creds.get n := by
  have hlookup : ∀ l : List Text, (l.map fun n => (n, (creds.get n).getD [])).lookup n =
      if n ∈ l then some ((creds.get n).getD []) else none := by
    intro l
    induction l with
    | nil => rfl
    | cons k l ih =>
      rw [map_cons, lookup_cons, ih]
      by_cases hk : n = k
      · subst hk
        simp
      · have hbeq : (n == k) = false := beq_false_of_ne hk
        simp [hk, hbeq]
  rw [sorted, hlookup]
  by_cases hn : n ∈ creds.keys.insertionSort (· ≤ ·)
  · rw [if_pos hn]
    exact (get_of_mem hn).2.symm
  · rw [if_neg hn]
    by_contra hne
    exact hn ((mem_insertionSort _).2 (GoMap.mem_keys_iff.2 fun hnone => hne hnone.symm))

theorem sorted_ascending (creds : GoMap Text Text) : ((sorted creds).map Prod.fst).Pairwise (· < ·) := by
  have hnames : (sorted creds).map Prod.fst = creds.keys.insertionSort (· ≤ ·) := by
    rw [sorted, List.map_map]
    exact List.map_id _
  have hnodup : (creds.keys.insertionSort (· ≤ ·)).Nodup := (perm_insertionSort (· ≤ ·) _).nodup_iff.2 creds.keys_nodup
  rw [hnames]
  exact (pairwise_insertionSort (· ≤ ·) creds.keys).imp₂ (fun _ _ => lt_of_le_of_ne) hnodup

end map

theorem credentials_round_trip (u : Unicode) (quote : Text → Text) (creds : GoMap Text Text)
    (hnames : ∀ n ∈ creds.keys, validateCredentialName (golib u quote) n = .ok ())
    (hvalues : ∀ n v, creds.get n = some v → IsBytes v) : (∃ read : List (Text × Text),
      (renderCredentials (golib u quote) creds).map readCredential = read.map some ∧
      (∀ n, read.lookup n = creds.get n) ∧ (read.map Prod.fst).Pairwise (· < ·)) ∧
    ∀ s ∈ renderCredentials (golib u quote) creds,
      ¬ (credentialPrefixText <+: s ∧ credentialBinaryPrefixText <+: s) ∧ readCmdline s = none ∧
        OneLine s := by
  refine ⟨⟨sorted creds, ?_, lookup_sorted, sorted_ascending creds⟩, fun s hs => ?_⟩
  · exact map_readCredential (fun n hn => (validName (hnames n hn)).1) hvalues
  · obtain ⟨n, hn, rfl⟩ := List.mem_map.1 hs
    obtain ⟨hprefixes, hcmdline⟩ := one_prefix u quote n ((creds.get n).getD [])
    exact ⟨hprefixes, hcmdline, oneLine_render (validName (hnames n (get_of_mem hn).1)).2⟩

namespace Sample

def unicode : Unicode := ⟨latin1Print, fun _ _ => rfl, by decide⟩

def creds : GoMap Text Text :=
  ((∅ : GoMap Text Text).insert "tls.key".toList ['\x00', '\xff']).insert "passwd.shell.root".toList "/bin/sh".toList

theorem isBytes_creds (n v : Text) (h : creds.get n = some v) : IsBytes v := by
  rw [creds, GoMap.get_insert, GoMap.get_insert, GoMap.get_empty] at h
  split at h
  · obtain rfl := some.inj h
    exact forall_iff_forall_mem.1 (by decide)
  · split at h
    · obtain rfl := some.inj h
      exact forall_iff_forall_mem.1 (by decide)
    · cases h

end Sample
open Sample

theorem credentials_round_trip_key : ∃ read : List (Text × Text),
    (renderCredentials (golib unicode id) creds).map readCredential = read.map some ∧
    (∀ n, read.lookup n = creds.get n) ∧ (read.map Prod.fst).Pairwise (· < ·) :=
  (credentials_round_trip unicode id creds (by decide +kernel) isBytes_creds).1

example : renderCredentials (golib unicode id) creds =
    ["io.systemd.credential:passwd.shell.root=/bin/sh".toList, "io.systemd.credential.binary:tls.key=AP8=".toList] := by
  decide +kernel

end VmManager.Runtime.Credentials
