import Mathlib.Algebra.GroupWithZero.Nat
import VmManager.Data.GoMap
import VmManager.Encoding.Hex

/-! What a guest reports and how an entry becomes a series: its metric name and its labels. Text is the
list of its characters. -/
namespace VmManager.Metrics
open Encoding List Option GoMap
variable {r : Char} {str l v key : Text} {k : Kind}

/-- What is used of Go's strconv, unicode and time and of the Prometheus client. `F` is float64. -/
structure Golib (F : Type) where
  one : F
  zero : F
  ofNat : Nat → F
  /-- `Duration.Seconds`. -/
  seconds : Int → F
  formatFloat : F → Text
  parseFloat : Text → Option F
  parseTime : Text → Option Nat
  isUpper : Char → Bool
  isLower : Char → Bool
  isDigit : Char → Bool
  toLower : Char → Char
  /-- `NewConstMetric` takes the name, the label names and the label values. -/
  accepts : Text → List Text → List Text → Bool
  nul_isLower : isLower '\x00' = false
  nul_isDigit : isDigit '\x00' = false
  toLower_ne_nul : ∀ c, isUpper c = true → toLower c ≠ '\x00'

/-- A decoded JSON value. An array or object is given by what `json.Marshal` writes for it. -/
inductive Value (F : Type) where
  | null
  | bool (b : Bool)
  | number (f : F)
  | string (s : Text)
  | composite (json : Text)
deriving DecidableEq

structure Entry (F : Type) where
  name : Text
  object : Text := []
  fields : GoMap Text (Value F) := ∅
  value : Value F
  type : Text := []

inductive Kind where
  | gauge
  | counter
  | info
deriving DecidableEq, Repr

def counterFamilies : List Text :=
  ["io.systemd.Manager.NRestarts".toList, "io.systemd.Manager.ReloadCount".toList]

def guestPrefix : Text := "vm_guest_".toList
def labelVM : Text := "vm".toList
def labelObject : Text := "object".toList
def labelValue : Text := "value".toList

structure Series (F : Type) where
  name : Text
  family : Text
  kind : Kind
  labels : GoMap Text Text
  value : F

section convert
variable {F : Type} (g : Golib F)

def labelString : Value F → Text
  | .string s => s
  | .number f => g.formatFloat f
  | .bool b => if b then "true".toList else "false".toList
  | .null => []
  | .composite json => json

def kindFor (e : Entry F) : Option Kind :=
  if e.type = "counter".toList then some .counter
  else if e.type = "gauge".toList then some .gauge
  else if e.type = "string".toList then some .info
  else match e.value with
    | .string _ => some .info
    | .number _ | .bool _ => some (if e.name ∈ counterFamilies then .counter else .gauge)
    | _ => none

def numberOf : Value F → Option F
  | .number f => some f
  | .bool b => some (if b then g.one else g.zero)
  | .string s => g.parseFloat s
  | _ => none

def kindOf (e : Entry F) : Option (Kind × F × Text) :=
  match kindFor e with
  | none => none
  | some .info => match e.value with
    | .null => none
    | v => some (.info, g.one, labelString g v)
  | some k => (numberOf g e.value).map fun f => (k, f, [])

def maxLabelValueBytes : Nat := 128

def cutAt : Nat → Text → Text
  | _, [] => []
  | n, r :: rs => if r.utf8Size ≤ n then r :: cutAt (n - r.utf8Size) rs else []

def byteLength (t : Text) : Nat := (t.map Char.utf8Size).sum

def boundLabel (v : Text) : Text :=
  if byteLength v ≤ maxLabelValueBytes then v else cutAt (maxLabelValueBytes - 1) v ++ ['…']

def trimLeft (t : Text) : Text := t.dropWhile (· == '_')

def trim (t : Text) : Text := (trimLeft (trimLeft t).reverse).reverse

def familyRunes (prev : Char) : Text → Text
  | [] => []
  | r :: rs =>
    if g.isUpper r then
      (if g.isLower prev || g.isDigit prev then ['_'] else []) ++ g.toLower r :: familyRunes r rs
    else if g.isLower r || g.isDigit r then r :: familyRunes r rs
    else (if prev ≠ '_' then ['_'] else []) ++ familyRunes '_' rs

def familyName (name : Text) : Text := trim (familyRunes g '_' name)

def isLabelRune (r : Char) : Bool := ('a' ≤ r && r ≤ 'z') || ('A' ≤ r && r ≤ 'Z') || ('0' ≤ r && r ≤ '9') || r == '_'

def reserved : Text → Bool
  | [] => true
  | r :: rs => ('0' ≤ r && r ≤ '9') || r :: rs == labelVM || r :: rs == labelObject ||
      r :: rs == labelValue

def labelName (key : Text) : Text :=
  let name := trimLeft (key.map fun r => if isLabelRune r then r else '_')
  if reserved name then "field_".toList ++ name else name

def metricName (k : Kind) (family : Text) : Text :=
  let name := guestPrefix ++ familyName g family
  match k with
  | .counter => if "_total".toList.isSuffixOf name then name else name ++ "_total".toList
  | .info => name ++ "_info".toList
  | .gauge => name

def fieldLabels (labels : GoMap Text Text) (fields : GoMap Text (Value F)) : GoMap Text Text :=
  fields.entries.foldl (fun l x => l.insert (labelName x.1) (boundLabel (labelString g x.2))) labels

def labelsOf (e : Entry F) (k : Kind) (str : Text) : GoMap Text Text :=
  let labels := fieldLabels g ((∅ : GoMap Text Text).insert labelObject (boundLabel e.object)) e.fields
  if k = .info then labels.insert labelValue (boundLabel str) else labels

def convert (e : Entry F) : Option (Series F) :=
  match kindOf g e with
  | none => none
  | some (k, value, str) =>
    if e.name = [] then none
    else some
      { name := metricName g k e.name, family := e.name, kind := k, labels := labelsOf g e k str, value }

end convert

/-- The text is not cut: it has at most 128 bytes, or is one that a cut leaves as it is. -/
def Short (v : Text) : Prop :=
  byteLength v ≤ maxLabelValueBytes ∨ ∃ x, byteLength x < maxLabelValueBytes ∧ v = x ++ ['…']

theorem byteLength_cons (r : Char) (t : Text) : byteLength (r :: t) = r.utf8Size + byteLength t := by simp [byteLength]

theorem byteLength_cutAt (n : Nat) (t : Text) : byteLength (cutAt n t) ≤ n := by
  induction t generalizing n with
  | nil => exact Nat.zero_le _
  | cons r t ih =>
    rw [cutAt]
    split
    · have := ih (n - r.utf8Size)
      rw [byteLength_cons]
      omega
    · exact Nat.zero_le _

theorem cutAt_append {n : Nat} (h : byteLength l ≤ n) (t : Text) :
    cutAt n (l ++ t) = l ++ cutAt (n - byteLength l) t := by
  induction l generalizing n with
  | nil => rfl
  | cons r l ih =>
    rw [byteLength_cons] at h
    rw [cons_append, cutAt, if_pos (by omega), ih (by omega), byteLength_cons, Nat.sub_sub, cons_append]

theorem boundLabel_eq_self : boundLabel v = v ↔ Short v := by
  unfold boundLabel Short
  by_cases hv : byteLength v ≤ maxLabelValueBytes
  · simp [hv]
  · rw [if_neg hv, or_iff_right hv]
    have hmax : maxLabelValueBytes = 128 := rfl
    constructor
    · intro h
      have := byteLength_cutAt (maxLabelValueBytes - 1) v
      exact ⟨cutAt (maxLabelValueBytes - 1) v, by omega, h.symm⟩
    · rintro ⟨x, hx, rfl⟩
      -- the text in front is 126 or 127 bytes long, and the ellipsis has three
      have hsize : Char.utf8Size '…' = 3 := by decide
      have hlen : byteLength (x ++ ['…']) = byteLength x + 3 := by simp [byteLength, hsize]
      rw [cutAt_append (by omega), cutAt, if_neg (by omega), append_nil]

theorem labelName_free (key : Text) :
    labelName key ≠ labelVM ∧ labelName key ≠ labelObject ∧ labelName key ≠ labelValue := by
  unfold labelName
  dsimp only
  split
  · exact ⟨nofun, nofun, nofun⟩
  · rename_i hres
    generalize trimLeft (key.map fun r => if isLabelRune r then r else '_') = name at hres
    refine ⟨?_, ?_, ?_⟩ <;> rintro rfl <;> exact hres rfl

def stem (key : Text) : Text := trimLeft (key.map fun r => if isLabelRune r then r else '_')

/-- The keys cannot be told apart as labels: they have the same stem, or one stem is the other one with field_ in
front and that one cannot be a label itself. -/
def Collide (key key' : Text) : Prop :=
  stem key = stem key' ∨ (reserved (stem key) = true ∧ stem key' = "field_".toList ++ stem key) ∨
    (reserved (stem key') = true ∧ stem key = "field_".toList ++ stem key')

theorem reserved_field (t : Text) : reserved ("field_".toList ++ t) = false := rfl

theorem labelName_eq_iff {key key' : Text} : labelName key = labelName key' ↔ Collide key key' := by
  have hname : ∀ key, labelName key = if reserved (stem key) then "field_".toList ++ stem key else stem key :=
    fun _ => rfl
  rw [hname, hname, Collide]
  cases hk : reserved (stem key) <;> cases hk' : reserved (stem key')
  · simp
  · have hne : stem key ≠ stem key' := fun heq => by simp [heq, hk'] at hk
    simp [hne]
  · have hne : stem key ≠ stem key' := fun heq => by simp [heq, hk'] at hk
    simp [hne, eq_comm]
  · have hne : ∀ {t t' : Text}, reserved t = true → t ≠ "field_".toList ++ t' := fun ht heq => by
      rw [heq, reserved_field] at ht
      cases ht
    simp only [if_true, append_cancel_left_eq, hne hk, hne hk', and_false, or_false]

/-- No two keys of the fields collide, and the object and the text of an info series are not cut. -/
structure Entry.Lossless {F : Type} (g : Golib F) (e : Entry F) : Prop where
  apart : ∀ key ∈ e.fields.keys, ∀ key' ∈ e.fields.keys, Collide key key' → key = key'
  object : Short e.object
  value : kindFor e = some .info → Short (labelString g e.value)

section conversion
variable {F : Type} {g : Golib F} {e : Entry F} {s : Series F}

theorem labelsOf_object (k : Kind) (str : Text) :
    GoMap.get (labelsOf g e k str) labelObject = some (boundLabel e.object) := by
  have hfields : GoMap.get (fieldLabels g ((∅ : GoMap Text Text).insert labelObject (boundLabel e.object))
      e.fields) labelObject = some (boundLabel e.object) := by
    rw [fieldLabels, get_foldl_of_forall_ne fun x _ => (labelName_free x.1).2.1, get_insert, if_pos rfl]
  unfold labelsOf
  split
  · rw [get_insert, if_neg (by decide), hfields]
  · exact hfields

theorem labelsOf_value (str : Text) :
    GoMap.get (labelsOf g e .info str) labelValue = some (boundLabel str) := by
  unfold labelsOf
  rw [if_pos rfl, get_insert, if_pos rfl]

theorem labelsOf_field {v : Value F} (k : Kind) (str : Text) (hv : e.fields.get key = some v)
    (hinj : ∀ key' ∈ e.fields.keys, labelName key' = labelName key → key' = key) :
    GoMap.get (labelsOf g e k str) (labelName key) = some (boundLabel (labelString g v)) := by
  have hmem := get_eq_some_iff.1 hv
  have hfields : GoMap.get (fieldLabels g ((∅ : GoMap Text Text).insert labelObject (boundLabel e.object))
      e.fields) (labelName key) = some (boundLabel (labelString g v)) := by
    refine get_foldl_of_exists ⟨_, hmem, rfl⟩ fun x hx hname => ?_
    have hkey : x.1 = key := hinj x.1 (List.mem_map_of_mem hx) hname
    have hx' : e.fields.get x.1 = some x.2 := get_eq_some_iff.2 hx
    rw [hkey, hv] at hx'
    rw [some.inj hx']
  unfold labelsOf
  split
  · rw [get_insert, if_neg (labelName_free key).2.2, hfields]
  · exact hfields

theorem labelsOf_other {l : Text} (k : Kind) (str : Text) (ho : l ≠ labelObject)
    (hk : ∀ key ∈ e.fields.keys, labelName key ≠ l) :
    GoMap.get (labelsOf g e k str) l = if k = .info ∧ l = labelValue then some (boundLabel str) else none := by
  have hfields : GoMap.get (fieldLabels g ((∅ : GoMap Text Text).insert labelObject (boundLabel e.object))
      e.fields) l = none := by
    rw [fieldLabels, get_foldl_of_forall_ne fun x hx => hk x.1 (List.mem_map_of_mem hx),
      get_insert, if_neg ho, get_empty]
  unfold labelsOf
  split
  · rename_i hinfo
    rw [get_insert, hfields]
    simp only [hinfo, true_and]
  · rename_i hinfo
    rw [hfields, if_neg fun hx => hinfo hx.1]

theorem labelsOf_cases (h : GoMap.get (labelsOf g e k str) l = some v) : (l = labelObject ∧ v = boundLabel e.object) ∨
      (∃ key x, e.fields.get key = some x ∧ l = labelName key ∧ v = boundLabel (labelString g x)) ∨
      (k = .info ∧ l = labelValue ∧ v = boundLabel str) := by
  have hfields : ∀ v, GoMap.get (fieldLabels g
      ((∅ : GoMap Text Text).insert labelObject (boundLabel e.object)) e.fields) l = some v →
      (l = labelObject ∧ v = boundLabel e.object) ∨
        ∃ key x, e.fields.get key = some x ∧ l = labelName key ∧ v = boundLabel (labelString g x) := by
    intro v hv
    rcases get_foldl_cases hv with hobj | ⟨x, hx, hl, hval⟩
    · rw [get_insert, get_empty] at hobj
      split at hobj
      · exact .inl ⟨‹_›, (some.inj hobj).symm⟩
      · cases hobj
    · exact .inr ⟨x.1, x.2, get_eq_some_iff.2 hx, hl.symm, hval.symm⟩
  unfold labelsOf at h
  split at h
  · rename_i hk
    rw [get_insert] at h
    split at h
    · exact .inr (.inr ⟨hk, ‹_›, (some.inj h).symm⟩)
    · exact (hfields v h).imp_right .inl
  · exact (hfields v h).imp_right .inl

theorem trimLeft_subset (t : Text) (h : r ∈ trimLeft t) : r ∈ t := (dropWhile_sublist _).subset h

theorem labelName_runes (key : Text) (h : r ∈ labelName key) : isLabelRune r = true := by
  have hname : ∀ r ∈ trimLeft (key.map fun r => if isLabelRune r then r else '_'), isLabelRune r = true := by
    intro r hr
    obtain ⟨c, -, rfl⟩ := List.mem_map.1 (trimLeft_subset _ hr)
    split
    · assumption
    · rfl
  unfold labelName at h
  dsimp only at h
  split at h
  · have hfield : ∀ r ∈ "field_".toList, isLabelRune r = true := List.all_eq_true.1 (by decide)
    exact (mem_append.1 h).elim (hfield r) (hname r)
  · exact hname r h

theorem labelsOf_runes (h : GoMap.get (labelsOf g e k str) l = some v) (hr : r ∈ l) : isLabelRune r = true := by
  rcases labelsOf_cases h with ⟨rfl, -⟩ | ⟨key, x, -, rfl, -⟩ | ⟨-, rfl, -⟩
  · exact List.all_eq_true.1 (by decide) r hr
  · exact labelName_runes key hr
  · exact List.all_eq_true.1 (by decide) r hr

theorem cutAt_subset (n : Nat) (t : Text) (h : r ∈ cutAt n t) : r ∈ t := by
  induction t generalizing n with
  | nil => exact h
  | cons c t ih =>
    rw [cutAt] at h
    split at h
    · rcases mem_cons.1 h with rfl | h
      · exact mem_cons_self
      · exact mem_cons_of_mem c (ih _ h)
    · cases h

theorem boundLabel_subset {v : Text} (h : r ∈ boundLabel v) : r ∈ v ∨ r = '…' := by
  unfold boundLabel at h
  split at h
  · exact .inl h
  · rcases mem_append.1 h with h | h
    · exact .inl (cutAt_subset _ v h)
    · exact .inr (mem_singleton.1 h)

theorem familyRunes_ne_nul (prev : Char) (name : Text) : '\x00' ∉ familyRunes g prev name := by
  induction name generalizing prev with
  | nil => exact not_mem_nil
  | cons r rs ih =>
    have hbar : ∀ p : Prop, [Decidable p] → '\x00' ∉ (if p then ['_'] else [] : Text) := by
      intro p _
      split <;> decide
    unfold familyRunes
    split
    · rename_i hu
      intro hm
      rcases mem_append.1 hm with hm | hm
      · exact hbar _ hm
      · rcases mem_cons.1 hm with hm | hm
        · exact g.toLower_ne_nul r hu hm.symm
        · exact ih r hm
    · split
      · rename_i hl
        intro hm
        rcases mem_cons.1 hm with rfl | hm
        · rw [g.nul_isLower, g.nul_isDigit] at hl
          cases hl
        · exact ih r hm
      · intro hm
        rcases mem_append.1 hm with hm | hm
        · exact hbar _ hm
        · exact ih '_' hm

theorem familyName_ne_nul (name : Text) : '\x00' ∉ familyName g name := by
  intro h
  have h₁ := trimLeft_subset _ (mem_reverse.1 h)
  have h₂ := trimLeft_subset _ (mem_reverse.1 h₁)
  exact familyRunes_ne_nul '_' name h₂

theorem metricName_ne_nul (k : Kind) (family : Text) : '\x00' ∉ metricName g k family := by
  have hname : '\x00' ∉ guestPrefix ++ familyName g family := fun h =>
    (mem_append.1 h).elim (by decide) (familyName_ne_nul family)
  unfold metricName
  cases k with
  | gauge => exact hname
  | counter =>
    dsimp only
    split
    · exact hname
    · exact fun h => (mem_append.1 h).elim hname (by decide)
  | info => exact fun h => (mem_append.1 h).elim hname (by decide)

structure Series.Same (s s' : Series F) : Prop where
  name : s.name = s'.name
  family : s.family = s'.family
  kind : s.kind = s'.kind
  value : s.value = s'.value
  labels : ∀ l, s.labels.get l = s'.labels.get l

theorem get_of_perm {m m' : GoMap Text (Value F)} (h : m'.entries.Perm m.entries) (key : Text) :
    m'.get key = m.get key := by
  ext v
  rw [get_eq_some_iff, get_eq_some_iff, h.mem_iff]

theorem labelsOf_perm {fields : GoMap Text (Value F)} (k : Kind) (str : Text)
    (hp : fields.entries.Perm e.fields.entries)
    (hinj : ∀ key ∈ e.fields.keys, ∀ key' ∈ e.fields.keys, labelName key = labelName key' → key = key') (l : Text) :
    GoMap.get (labelsOf g { e with fields } k str) l = GoMap.get (labelsOf g e k str) l := by
  have hkeys : ∀ key, key ∈ fields.keys ↔ key ∈ e.fields.keys := fun key => by
    rw [mem_keys_iff, mem_keys_iff, get_of_perm hp]
  by_cases ho : l = labelObject
  · rw [ho, labelsOf_object, labelsOf_object]
  by_cases hl : ∃ key ∈ e.fields.keys, labelName key = l
  · obtain ⟨key, hkey, rfl⟩ := hl
    obtain ⟨v, hv⟩ := ne_none_iff_exists'.1 (mem_keys_iff.1 hkey)
    have hv' : fields.get key = some v := (get_of_perm hp key).trans hv
    rw [labelsOf_field k str hv fun key' hk' => hinj key' hk' key hkey,
      labelsOf_field (e := { e with fields }) k str hv' fun key' hk' =>
        hinj key' ((hkeys key').1 hk') key hkey]
  · have hne : ∀ key ∈ e.fields.keys, labelName key ≠ l := fun key hk hx => hl ⟨key, hk, hx⟩
    rw [labelsOf_other k str ho hne,
      labelsOf_other (e := { e with fields }) k str ho fun key hk => hne key ((hkeys key).1 hk)]

theorem convert_cases (h : convert g e = some s) : ∃ k value str, kindOf g e = some (k, value, str) ∧
    e.name ≠ [] ∧ s = ⟨metricName g k e.name, e.name, k, labelsOf g e k str, value⟩ := by
  unfold convert at h
  split at h
  · cases h
  rename_i k value str hk
  split at h
  · cases h
  rename_i hne
  exact ⟨k, value, str, hk, hne, (some.inj h).symm⟩

theorem kindOf_info {value : F} {str : Text} (h : kindOf g e = some (.info, value, str)) :
    str = labelString g e.value := by
  unfold kindOf at h
  split at h
  · cases h
  · split at h <;> cases h
    rfl
  · rename_i k hk _
    obtain ⟨f, -, hf⟩ := map_eq_some_iff.1 h
    cases hf
    exact absurd rfl hk

theorem kindFor_of_kindOf {value : F} {str : Text} (h : kindOf g e = some (k, value, str)) : kindFor e = some k := by
  unfold kindOf at h
  split at h
  · cases h
  · split at h <;> cases h
    assumption
  · obtain ⟨f, -, hf⟩ := map_eq_some_iff.1 h
    cases hf
    assumption

theorem convert_keeps_fields (g : Golib F) {e : Entry F} {s : Series F} (h : convert g e = some s) :
    ((∀ key ∈ e.fields.keys, ∀ key' ∈ e.fields.keys, labelName key = labelName key' → key = key') ∧
    (∀ key v, e.fields.get key = some v → labelName key ∉ [labelVM, labelObject, labelValue] ∧
      s.labels.get (labelName key) = some (boundLabel (labelString g v))) ∧
    s.labels.get labelObject = some e.object ∧
    (s.kind = .info → s.labels.get labelValue = some (labelString g e.value)) ∧
    ∀ fields : GoMap Text (Value F), fields.entries.Perm e.fields.entries →
      ∃ s', convert g { e with fields } = some s' ∧ s'.Same s) ↔ e.Lossless g := by
  obtain ⟨k, value, str, hkind, hname, rfl⟩ := convert_cases h
  have hinfo : k = .info → GoMap.get (labelsOf g e k str) labelValue = some (boundLabel (labelString g e.value)) := by
    rintro rfl
    rw [labelsOf_value, kindOf_info hkind]
  constructor
  · rintro ⟨hinj, -, hobject, hvalue, -⟩
    refine ⟨fun key hk key' hk' hc => hinj key hk key' hk' (labelName_eq_iff.2 hc), ?_, fun hk => ?_⟩
    · rw [labelsOf_object] at hobject
      exact boundLabel_eq_self.1 (some.inj hobject)
    · obtain rfl : k = .info := some.inj ((kindFor_of_kindOf hkind).symm.trans hk)
      exact boundLabel_eq_self.1 (some.inj ((hinfo rfl).symm.trans (hvalue rfl)))
  · intro hl
    have hinj : ∀ key ∈ e.fields.keys, ∀ key' ∈ e.fields.keys, labelName key = labelName key' → key = key' :=
      fun key hk key' hk' heq => hl.apart key hk key' hk' (labelName_eq_iff.1 heq)
    refine ⟨hinj, fun key v hv => ⟨by simpa using labelName_free key, ?_⟩, ?_, fun hk => ?_, fun fields hp => ?_⟩
    · have hkey : key ∈ e.fields.keys := GoMap.mem_keys_iff.2 (by simp [hv])
      exact labelsOf_field k str hv fun key' hk' => hinj key' hk' key hkey
    · rw [labelsOf_object, boundLabel_eq_self.2 hl.object]
    · rw [hinfo hk, boundLabel_eq_self.2 (hl.value ((kindFor_of_kindOf hkind).trans (congrArg some hk)))]
    · have hkind' : kindOf g { e with fields } = some (k, value, str) := hkind
      refine ⟨⟨metricName g k e.name, e.name, k, labelsOf g { e with fields } k str, value⟩, ?_,
        rfl, rfl, rfl, rfl, labelsOf_perm k str hp hinj⟩
      unfold convert
      rw [hkind']
      exact if_neg hname

end conversion

namespace Sample

def golib : Golib Nat where
  one := 1
  zero := 0
  ofNat n := n
  seconds d := d.toNat
  formatFloat n := Nat.toDigits 10 n
  parseFloat _ := none
  parseTime _ := none
  isUpper c := 'A' ≤ c && c ≤ 'Z'
  isLower c := 'a' ≤ c && c ≤ 'z'
  isDigit c := '0' ≤ c && c ≤ '9'
  toLower := Char.toLower
  accepts _ _ _ := true
  nul_isLower := by decide
  nul_isDigit := by decide
  toLower_ne_nul c hc := by
    have hrange : ∀ n < 91, 65 ≤ n → (Char.ofNat n).toLower ≠ '\x00' := by decide
    have hc : 65 ≤ c.toNat ∧ c.toNat ≤ 90 := by simpa [Char.le_def, UInt32.le_iff_toNat_le] using hc
    rw [← Char.ofNat_toNat c]
    exact hrange _ (by omega) hc.1

def entry (key key' : String) (v v' : Nat) : Entry Nat where
  name := "io.systemd.Network.Carrier".toList
  fields := ((∅ : GoMap Text (Value Nat)).insert key'.toList (.number v')).insert key.toList (.number v)
  value := .number 7

instance (key key' : Text) : Decidable (Collide key key') := by unfold Collide; infer_instance

theorem lossless (e : Entry Nat)
    (h : ∀ key ∈ e.fields.keys, ∀ key' ∈ e.fields.keys, Collide key key' → key = key')
    (ho : byteLength e.object ≤ maxLabelValueBytes)
    (hv : byteLength (labelString golib e.value) ≤ maxLabelValueBytes) : e.Lossless golib :=
  ⟨h, .inl ho, fun _ => .inl hv⟩

end Sample
open Sample

theorem convert_keeps_fields_two : ∃ s, convert golib (entry "vm" "a.b" 1 2) = some s ∧
    (entry "vm" "a.b" 1 2).Lossless golib ∧
    s.labels.get "field_vm".toList = some ['1'] ∧ s.labels.get "a_b".toList = some ['2'] := by
  have hx : (convert golib (entry "vm" "a.b" 1 2)).isSome = true := by decide +kernel
  obtain ⟨s, hs⟩ := isSome_iff_exists.1 hx
  have hl : (entry "vm" "a.b" 1 2).Lossless golib :=
    lossless _ (by decide +kernel) (by decide +kernel) (by decide +kernel)
  obtain ⟨-, hfields, -⟩ := (convert_keeps_fields golib hs).2 hl
  have h₁ := (hfields "vm".toList (.number 1) (by decide +kernel)).2
  have h₂ := (hfields "a.b".toList (.number 2) (by decide +kernel)).2
  have hvm : labelName "vm".toList = "field_vm".toList := by decide +kernel
  have hab : labelName "a.b".toList = "a_b".toList := by decide +kernel
  rw [hvm] at h₁
  rw [hab] at h₂
  exact ⟨s, hs, hl, h₁.trans (by decide +kernel), h₂.trans (by decide +kernel)⟩

theorem convert_loses_field : ∃ e fields s s', convert golib e = some s ∧
    fields.entries.Perm e.fields.entries ∧ convert golib { e with fields } = some s' ∧
    (∃ key key', key ∈ e.fields.keys ∧ key' ∈ e.fields.keys ∧ key ≠ key' ∧ labelName key = labelName key') ∧
    s.labels.get "a_b".toList = some ['2'] ∧ s'.labels.get "a_b".toList = some ['1'] := by
  let e := entry "a.b" "a_b" 1 2
  let e' := entry "a_b" "a.b" 2 1
  have hx : ((convert golib e).map fun s => s.labels.get "a_b".toList) = some (some ['2']) := by
    decide +kernel
  have hx' : ((convert golib e').map fun s => s.labels.get "a_b".toList) = some (some ['1']) := by
    decide +kernel
  obtain ⟨s, hs, hl⟩ := map_eq_some_iff.1 hx
  obtain ⟨s', hs', hl'⟩ := map_eq_some_iff.1 hx'
  refine ⟨e, e'.fields, s, s', hs, by decide +kernel, hs', ?_, hl, hl'⟩
  exact ⟨"a.b".toList, "a_b".toList, by decide +kernel, by decide +kernel, by decide +kernel, by decide +kernel⟩

end VmManager.Metrics
