import VmManager.Attest.PolicyFile
import VmManager.Data.GoMap

/-! Golden values in a policy file: `writeGolden` edits the file as a document of raw members, by the exact names
of two of them, and checks the result as a policy, whose reader takes names in any case and merges what it meets
twice. The new content goes to a file next to the old one, which replaces it. -/
namespace VmManager.Images
open Encoding Attest List Option Json Prod

/-- Files by name. Several names may lead to one file; a new file gets the next number. -/
structure Disk where
  entry : Text → Option Nat
  content : Nat → Text
  next : Nat
  used : ∀ name i, entry name = some i → i < next

namespace Disk
variable (d : Disk)

def read (name : Text) : Option Text := (d.entry name).map d.content

def writeFile (name data : Text) : Disk :=
  match d.entry name with
  | some i => { d with content := fun j => if j = i then data else d.content j }
  | none =>
    { entry := fun n => if n = name then some d.next else d.entry n
      content := fun j => if j = d.next then data else d.content j
      next := d.next + 1
      used := fun n i hn => by
        split at hn
        · cases hn
          exact Nat.lt_succ_self _
        · exact Nat.lt_succ_of_lt (d.used n i hn) }

def rename (old new : Text) : Disk :=
  if d.entry old = d.entry new then d
  else
    { d with
      entry := fun n => if n = new then d.entry old else if n = old then none else d.entry n
      used := fun n i hn => by
        split at hn
        · exact d.used old i hn
        · split at hn
          · cases hn
          · exact d.used n i hn }

def remove (name : Text) : Disk :=
  { d with
    entry := fun n => if n = name then none else d.entry n
    used := fun n i hn => by
      split at hn
      · cases hn
      · exact d.used n i hn }

end Disk

/-- What fails of the system calls; a write may fail after some of the data. -/
structure Faults where
  read : Bool := false
  create : Bool := false
  written : Option Nat := none
  rename : Bool := false
  remove : Bool := false

/-- Why the policy file is not replaced. Assignment to an entry of a nil map is a panic. -/
inductive GoldenError where
  | read | json | nilMap
  | policy (err : ParseError)
  | write | rename
deriving DecidableEq, Repr

def goldenKey : Text := "golden".toList
def firmwareKey : Text := "golden_firmware".toList

def goldenJson (golden : GoMap Int Text) : Json :=
  .obj [(.quote bank.toList, .obj (rawMembers (golden.entries.map fun e => (itoa e.1, .str (.quote e.2)))))]

def textMember (name : String) (value : Text) : Literal × Json := (.quote name.toList, .str (.quote value))

def firmwareJson : Option Firmware → Json
  | none => .null
  | some f =>
    .obj (textMember "sha256" f.sha256 ::
      ((if f.package = "" then [] else [textMember "package" f.package.toList]) ++
        if f.version = "" then [] else [textMember "version" f.version.toList]))

def goldenDocument (golden : Option (GoMap Int Text)) (fw : Option Firmware) (doc : List (Text × Json)) :
    List (Text × Json) :=
  match golden with
  | none => without (without doc goldenKey) firmwareKey
  | some golden => assign (assign doc goldenKey (goldenJson golden)) firmwareKey (firmwareJson fw)

def checked (doc : Json) : Except GoldenError Text :=
  match parsePolicy doc.marshalIndent with
  | .ok _ => .ok (doc.marshalIndent ++ ['\n'])
  | .error err => .error (.policy err)

def goldenFile (golden : Option (GoMap Int Text)) (fw : Option Firmware) (raw : Text) : Except GoldenError Text :=
  match parse raw with
  | some (.obj members) =>
    checked (.obj (rawMembers (goldenDocument golden fw (rawMessages members))))
  | some .null => if golden.isSome then .error .nilMap else checked .null
  | _ => .error .json

def tmpOf (path : Text) : Text := path ++ ".tmp".toList

def writeGolden (faults : Faults) (d : Disk) (path : Text) (golden : Option (GoMap Int Text))
    (fw : Option Firmware) : Except GoldenError Unit × Disk :=
  match if faults.read then none else d.read path with
  | none => (.error .read, d)
  | some raw => match goldenFile golden fw raw with
    | .error err => (.error err, d)
    | .ok data =>
      if faults.create then (.error .write, d)
      else match faults.written with
        | some n => (.error .write, d.writeFile (tmpOf path) (data.take n))
        | none =>
          let d := d.writeFile (tmpOf path) data
          if faults.rename then (.error .rename, if faults.remove then d else d.remove (tmpOf path))
          else (.ok (), d.rename (tmpOf path) path)

section disk
variable {d : Disk} {name path data : Text}

theorem Disk.read_writeFile (d : Disk) (name data : Text) : (d.writeFile name data).read name = some data := by
  unfold Disk.writeFile
  split
  · rename_i i hi
    simp [Disk.read, hi]
  · simp [Disk.read]

theorem Disk.read_rename (d : Disk) (old new : Text) : (d.rename old new).read new = d.read old := by
  unfold Disk.rename
  split
  · rename_i heq
    rw [Disk.read, Disk.read, heq]
  · simp [Disk.read]

end disk

section running
variable {faults : Faults} {d d' : Disk} {path raw : Text} {golden : Option (GoMap Int Text)} {fw : Option Firmware}

theorem writeGolden_ok (h : writeGolden faults d path golden fw = (.ok (), d')) :
    ∃ raw data, d.read path = some raw ∧ goldenFile golden fw raw = .ok data ∧ d'.read path = some data := by
  unfold writeGolden at h
  split at h
  · cases h
  rename_i raw hraw
  have hread : d.read path = some raw := by
    split at hraw
    · cases hraw
    · exact hraw
  split at h
  · cases h
  rename_i data hdata
  refine ⟨raw, data, hread, hdata, ?_⟩
  split at h
  · cases h
  split at h
  · cases h
  split at h <;> cases h
  rw [Disk.read_rename, Disk.read_writeFile]

end running

section documents
variable {golden : Option (GoMap Int Text)} {fw : Option Firmware} {doc : List (Text × Json)}
  {members : List (Literal × Json)} {raw data : Text}

theorem filter_goldenDocument {P : Text → Bool} (hgolden : P goldenKey = false) (hfw : P firmwareKey = false) :
    (goldenDocument golden fw doc).filter (fun e => P e.1) = doc.filter fun e => P e.1 := by
  cases golden with
  | none => rw [goldenDocument, filter_without_of_not hfw, filter_without_of_not hgolden]
  | some golden => simp [goldenDocument, filter_assign, hgolden, hfw]

theorem depth_goldenJson (golden : GoMap Int Text) : (goldenJson golden).depth ≤ 2 := by
  refine depth_obj_le_iff.2 fun m hm => ?_
  rw [mem_singleton.1 hm, depth_obj_le_iff, rawMembers, List.forall_mem_map]
  intro e he
  rw [mem_insertionSort, List.mem_map] at he
  obtain ⟨e', -, rfl⟩ := he
  exact le_rfl

theorem depth_firmwareJson (fw : Option Firmware) : (firmwareJson fw).depth ≤ 1 := by
  cases fw with
  | none => exact Nat.zero_le 1
  | some f =>
    refine depth_obj_le_iff.2 fun m hm => ?_
    have hstr : ∃ s, m.2 = .str s := by
      rcases mem_cons.1 hm with rfl | hm
      · exact ⟨_, rfl⟩
      · rcases mem_append.1 hm with hm | hm
        all_goals
          split at hm
          · cases hm
          · exact ⟨_, congrArg snd (mem_singleton.1 hm)⟩
    obtain ⟨s, hs⟩ := hstr
    rw [hs]
    exact le_rfl

/-- The members of the document that `goldenFile` writes. -/
abbrev merged (golden : Option (GoMap Int Text)) (fw : Option Firmware) (members : List (Literal × Json)) :
    List (Literal × Json) := rawMembers (goldenDocument golden fw (rawMessages members))

theorem depth_goldenDocument (h : parse raw = some (.obj members)) :
    (obj (merged golden fw members)).depth ≤ maxNestingDepth := by
  have hmembers : ∀ m ∈ members, m.2.depth ≤ 9999 := depth_obj_le_iff.1 (depth_of_parse h)
  have hraw : ∀ e ∈ rawMessages members, e.2.depth ≤ 9999 := by
    intro e he
    obtain ⟨m, hm, rfl⟩ := List.mem_map.1 (mem_of_mem_ofEntries he)
    exact hmembers m hm
  have hdoc : ∀ e ∈ goldenDocument golden fw (rawMessages members), e.2.depth ≤ 9999 := by
    intro e he
    cases golden with
    | none => exact hraw e (mem_of_mem_filter (mem_of_mem_filter he))
    | some golden =>
      rcases mem_assign.1 he with rfl | ⟨he, -⟩
      · exact (depth_firmwareJson fw).trans (by decide)
      · rcases mem_assign.1 he with rfl | ⟨he, -⟩
        · exact (depth_goldenJson golden).trans (by decide)
        · exact hraw e he
  refine depth_obj_le_iff.2 ?_
  rw [merged, rawMembers, List.forall_mem_map]
  intro e he
  rw [depth_escapeHTML]
  exact hdoc e ((mem_insertionSort _).1 he)

theorem parse_marshalIndent_line {doc : Json} (hdepth : doc.depth ≤ maxNestingDepth) :
    parse doc.marshalIndent = some doc ∧ parse (doc.marshalIndent ++ ['\n']) = some doc := by
  have hbare := parse_marshalIndent hdepth (forall_mem_nil _)
  rw [append_nil] at hbare
  exact ⟨hbare, parse_marshalIndent hdepth (forall_mem_singleton.2 rfl)⟩

theorem checked_ok {doc : Json} (hdepth : doc.depth ≤ maxNestingDepth) (h : checked doc = .ok data) :
    parse data = some doc ∧ ∃ p, parsePolicy data = .ok p ∧ Policy.unmarshal doc = some p ∧ p.validate = .ok () := by
  obtain ⟨hbare, hline⟩ := parse_marshalIndent_line hdepth
  unfold checked at h
  split at h <;> cases h
  rename_i p hp
  obtain ⟨j, hj, hu, hv⟩ := parsePolicy_eq_ok_iff.1 hp
  cases hbare.symm.trans hj
  exact ⟨hline, p, parsePolicy_eq_ok_iff.2 ⟨doc, hline, hu, hv⟩, hu, hv⟩

theorem goldenFile_ok (hraw : parse raw = some (.obj members)) (h : goldenFile golden fw raw = .ok data) :
    parse data = some (.obj (merged golden fw members)) ∧
      ∃ p, parsePolicy data = .ok p ∧ p.validate = .ok () ∧
        Policy.unmarshal (.obj (merged golden fw members)) = some p := by
  rw [goldenFile, hraw] at h
  obtain ⟨hparse, p, hp, hu, hv⟩ := checked_ok (depth_goldenDocument hraw) h
  exact ⟨hparse, p, hp, hv, hu⟩

theorem members_of_goldenFile {golden : GoMap Int Text} (h : goldenFile (some golden) fw raw = .ok data) :
    ∃ members, parse raw = some (.obj members) := by
  unfold goldenFile at h
  split at h
  · exact ⟨_, ‹_›⟩
  · cases h
  · cases h

theorem goldenFile_of_valid {p : Policy} (hraw : parse raw = some (.obj members))
    (hu : Policy.unmarshal (.obj (merged golden fw members)) = some p)
    (hv : p.validate = .ok ()) : ∃ data, goldenFile golden fw raw = .ok data := by
  have hbare := (parse_marshalIndent_line (depth_goldenDocument hraw : (obj (merged golden fw members)).depth ≤ _)).1
  rw [goldenFile, hraw]
  dsimp only
  rw [checked, parsePolicy_eq_ok_iff.2 ⟨_, hbare, hu, hv⟩]
  exact ⟨_, rfl⟩

end documents

section values
variable {golden : GoMap Int Text}

theorem foldlM_parseInt_itoa {entries : List ((_ : Int) × Text)} {m values : List (Int × Text)}
    (h : entries.foldlM (fun m e => (parseInt (itoa e.1)).bind fun k => some (assign m k e.2)) m =
      some values) :
    values = (entries.map fun e => (e.1, e.2)).foldl (fun m e => assign m e.1 e.2) m := by
  induction entries generalizing m with
  | nil => exact (some.inj h).symm
  | cons e entries ih =>
    obtain ⟨m', hm', htail⟩ := bind_eq_some_iff.1 h
    obtain ⟨k, hk, heq⟩ := bind_eq_some_iff.1 hm'
    cases heq
    rw [parseInt_itoa hk] at htail
    exact ih htail

theorem intoGolden_goldenJson {old banks : List (String × List (Int × Text))}
    (h : intoGolden old (goldenJson golden) = some banks) :
    ∃ values, banks = assign old bank values ∧ ∀ i, values.lookup i = golden.get i := by
  let entries := golden.entries.insertionSort fun x y => itoa x.1 ≤ itoa y.1
  have hperm : entries.Perm golden.entries := perm_insertionSort _ _
  have hmembers : rawMembers (golden.entries.map fun e => (itoa e.1, .str (.quote e.2))) =
      entries.map fun e => (.quote (itoa e.1), (str (.quote e.2)).escapeHTML) := by
    have hsort := map_insertionSort (fun x y : (_ : Int) × Text => itoa x.1 ≤ itoa y.1)
      (fun x y : Text × Json => x.1 ≤ y.1) (fun e => (itoa e.1, str (.quote e.2))) golden.entries
      fun _ _ _ _ => Iff.rfl
    rw [rawMembers, ← hsort, List.map_map]
    rfl
  have hvalue : ∀ v : Text, intoString [] (str (.quote v)).escapeHTML = some v := by
    intro v
    rw [intoString_escapeHTML]
    simp [intoString]
  simp only [intoGolden, goldenJson, intoMap, foldlM_cons, foldlM_nil, hmembers, foldlM_map,
    unquote_quote, hvalue, map_some, bind_some, String.ofList_toList] at h
  obtain ⟨_, hinner, hbanks⟩ := bind_eq_some_iff.1 h
  obtain ⟨values, hvalues, rfl⟩ := map_eq_some_iff.1 hinner
  cases hbanks
  refine ⟨values, rfl, fun i => ext fun v => ?_⟩
  have hnodup : ((entries.map fun e => (e.1, e.2)).map fst).Nodup := by
    rw [List.map_map]
    exact (hperm.map Sigma.fst).nodup_iff.2 golden.nodupKeys
  have hreverse := foldlM_parseInt_itoa hvalues
  have hentries : values = (entries.map fun e => (e.1, e.2)).reverse := by
    rw [hreverse]
    exact ofEntries_of_nodup hnodup
  have hkeys : (values.map fst).Nodup := by
    rw [hentries, map_reverse, nodup_reverse]
    exact hnodup
  rw [lookup_eq_some_iff_mem hkeys, GoMap.get_eq_some_iff, hentries, mem_reverse, ← hperm.mem_iff]
  simp only [List.mem_map, Prod.mk.injEq]
  refine ⟨?_, fun he => ⟨_, he, rfl, rfl⟩⟩
  rintro ⟨e, he, rfl, rfl⟩
  exact he

theorem field_textMember (name other : String) (zero value : Text) (members : List (Literal × Json)) :
    field name intoString zero (textMember other value :: members) =
      field name intoString (if names name other.toList then value else zero) members := by
  cases hname : names name other.toList <;>
    simp [field, textMember, hname, intoString]

def Firmware.onto (old : Option Firmware) (f : Firmware) : Firmware :=
  { f with
    package := if f.package = "" then (old.map Firmware.package).getD "" else f.package
    version := if f.version = "" then (old.map Firmware.version).getD "" else f.version }

theorem intoFirmware_firmwareJson (old fw : Option Firmware) :
    intoFirmware old (firmwareJson fw) = some (fw.map (Firmware.onto old)) := by
  cases fw with
  | none => rfl
  | some f =>
    obtain ⟨sha256, package, version⟩ := f
    have hnil : ∀ (name : String) (zero : Text), field name intoString zero [] = some zero :=
      fun _ _ => rfl
    -- The names of the three fields do not match each other.
    have hdigest : names "sha256" "sha256".toList = true ∧ names "sha256" "package".toList = false ∧
        names "sha256" "version".toList = false := by decide
    have hpackage : names "package" "sha256".toList = false ∧ names "package" "package".toList = true ∧
        names "package" "version".toList = false := by decide
    have hversion : names "version" "sha256".toList = false ∧ names "version" "package".toList = false ∧
        names "version" "version".toList = true := by decide
    cases old <;> by_cases hp : package = "" <;> by_cases hv : version = "" <;>
      simp only [firmwareJson, intoFirmware, hp, hv, if_true, if_false, nil_append, append_nil,
        cons_append, field_textMember, hnil, hdigest, hpackage, hversion, bind_eq_bind, bind_some,
        getD_none, getD_some, map_some, map_none, Bool.false_eq_true, String.ofList_toList, Firmware.onto]

end values

def isOther (m : Literal × Json) : Bool := decide (m.1.unquote ≠ goldenKey ∧ m.1.unquote ≠ firmwareKey)

def otherMembers (members : List (Literal × Json)) : List (Text × Json) :=
  (members.filter isOther).map fun m => (m.1.unquote, m.2.canonical)

def rest (members : List (Literal × Json)) : List (Literal × Json) :=
  rawMembers (without (without (rawMessages members) goldenKey) firmwareKey)

structure SameTables (p p' : Policy) : Prop where
  pcr11 : ∀ phase, p'.pcr11.lookup phase = p.pcr11.lookup phase
  pcr13 : ∀ version, p'.pcr13.lookup version = p.pcr13.lookup version

/-- The tables are valid, and no golden values are of another bank. -/
structure Writable (q : Policy) : Prop where
  tables : { q with golden := [], goldenFirmware := none }.validate = .ok ()
  banks : ∀ e ∈ q.golden, e.1 = bank

/-- If the other members of the file are a policy by themselves, they have no golden values and no firmware under
another spelling of these names. If golden values can be written at all, no other name stands twice, the order of the
names makes no difference to the tables, a firmware under another spelling has no package and no version, and the
temporary file is not the policy file itself. -/
structure Unambiguous (d : Disk) (path : Text) (p : Policy) (members : List (Literal × Json)) : Prop where
  written : ∀ q, Policy.unmarshal (.obj (rest members)) = some q → Writable q →
    d.entry (tmpOf path) ≠ d.entry path ∧ ((members.filter isOther).map fun m => m.1.unquote).Nodup ∧
      SameTables p q ∧ ∀ f, q.goldenFirmware = some f → f.package = "" ∧ f.version = ""
  cleared : ∀ q, Policy.unmarshal (.obj (rest members)) = some q → q.validate = .ok () →
    q.golden = [] ∧ q.goldenFirmware = none

section spelling

theorem le_of_foldChar {c d : Char} (hd : d ∈ firmwareKey) (h : foldChar c = foldChar d) : c ≤ d := by
  have hfold : ∀ d ∈ firmwareKey, (foldChar d).toNat ≠ 83 ∧ (foldChar d).toNat ≠ 75 ∧
      (foldChar d).toNat ≤ d.toNat ∧ (97 ≤ d.toNat → d.toNat = (foldChar d).toNat + 32) ∧
      (d.toNat < 97 → (foldChar d).toNat < 65 ∨ 90 < (foldChar d).toNat) :=
    @of_decide_eq_true _ (decidableBAll _ _) (by decide +kernel)
  obtain ⟨hs, hk, hle, hlow, hother⟩ := hfold d hd
  have hc : (foldChar c).toNat = 83 ∨ (foldChar c).toNat = 75 ∨
      (foldChar c).toNat = c.toUpper.toNat := by
    unfold foldChar
    split
    · exact .inl rfl
    · split
      · exact .inr (.inl rfl)
      · exact .inr (.inr rfl)
  rw [h, toNat_toUpper] at hc
  change c.toNat ≤ d.toNat
  split at hc <;> omega

theorem le_of_names {name : String} {t : Text} (hname : name.toList ⊆ firmwareKey) (h : names name t = true) :
    t ≤ name.toList := by
  have hfold : foldName t = foldName name.toList := of_decide_eq_true h
  clear h
  generalize name.toList = key at hname hfold
  induction key generalizing t with
  | nil => rw [map_eq_nil_iff.1 hfold]
  | cons d key ih =>
    cases t with
    | nil => exact le_of_lt .nil
    | cons c t =>
      obtain ⟨hhead, htail⟩ := cons.inj hfold
      have hc := le_of_foldChar (hname mem_cons_self) hhead
      rcases hc.lt_or_eq with hlt | rfl
      · exact le_of_lt (.rel hlt)
      · rcases (ih (fun x hx => hname (mem_cons_of_mem _ hx)) htail).lt_or_eq with hlt | rfl
        · exact le_of_lt (.cons hlt)
        · exact le_rfl

theorem names_golden : names "golden" goldenKey = true ∧ names "golden" firmwareKey = false := by decide

theorem names_firmware : names "golden_firmware" goldenKey = false ∧
    names "golden_firmware" firmwareKey = true := by decide

end spelling

section precision
variable {golden : Option (GoMap Int Text)} {fw : Option Firmware} {members : List (Literal × Json)}

theorem field_other (members : List (Literal × Json)) {α : Type} (into : α → Json → Option α) (zero : α) {name : String}
    (hgolden : names name goldenKey = false) (hfw : names name firmwareKey = false) (golden : GoMap Int Text)
    (fw : Option Firmware) :
    field name into zero (merged (some golden) fw members) =
      field name into zero (rest members) := by
  have hdoc := nodup_rawMessages members
  rw [merged, goldenDocument, rest, field_rawMembers_assign_of_not (nodup_assign hdoc) hfw,
    field_rawMembers_assign_of_not hdoc hgolden, field_rawMembers_without_of_not (nodup_without hdoc) hfw,
    field_rawMembers_without_of_not hdoc hgolden]

theorem field_golden (golden : GoMap Int Text) (fw : Option Firmware) :
    field "golden" intoGolden [] (merged (some golden) fw members) =
      (field "golden" intoGolden [] (rest members)).bind fun old => intoGolden old (goldenJson golden) := by
  have hdoc := nodup_rawMessages members
  rw [merged, goldenDocument, rest, field_rawMembers_assign_of_not (nodup_assign hdoc) names_golden.2,
    field_rawMembers_assign hdoc names_golden.1 fun t => le_of_names (by decide),
    field_rawMembers_without_of_not (nodup_without hdoc) names_golden.2]
  simp only [intoGolden_escapeHTML]

theorem field_firmware (golden : GoMap Int Text) (fw : Option Firmware) :
    field "golden_firmware" intoFirmware none (merged (some golden) fw members) =
      (field "golden_firmware" intoFirmware none (rest members)).bind fun old =>
        intoFirmware old (firmwareJson fw) := by
  have hdoc := nodup_rawMessages members
  rw [merged, goldenDocument, rest, field_rawMembers_assign (nodup_assign hdoc) names_firmware.2
      fun t => le_of_names (by decide), without_assign (by decide),
    field_rawMembers_assign_of_not (nodup_without hdoc) names_firmware.1, without_comm,
    field_rawMembers_without_of_not (nodup_without hdoc) names_firmware.1]
  simp only [intoFirmware_escapeHTML]

theorem unmarshal_written {p : Policy} {golden : GoMap Int Text} :
    Policy.unmarshal (.obj (merged (some golden) fw members)) = some p ↔
      ∃ q g, Policy.unmarshal (.obj (rest members)) = some q ∧ intoGolden q.golden (goldenJson golden) = some g ∧
        p = { q with golden := g, goldenFirmware := fw.map (Firmware.onto q.goldenFirmware) } := by
  have h (name : String) (h : names name goldenKey = false ∧ names name firmwareKey = false) {α : Type}
      (into : α → Json → Option α) (zero : α) := field_other members into zero h.1 h.2 golden fw
  simp only [Policy.unmarshal, h "image_id" (by decide), h "image_version" (by decide), h "pcr11" (by decide),
    h "pcr13" (by decide), field_golden, field_firmware, bind_eq_bind, bind_eq_some_iff, intoFirmware_firmwareJson]
  constructor
  · rintro ⟨i, hi, v, hv, a, ha, b, hb, g, ⟨old, hold, hg⟩, f, ⟨of, hof, hf⟩, hp⟩
    cases hf
    exact ⟨_, g, ⟨i, hi, v, hv, a, ha, b, hb, old, hold, of, hof, rfl⟩, hg, (some.inj hp).symm⟩
  · rintro ⟨q, g, ⟨i, hi, v, hv, a, ha, b, hb, old, hold, of, hof, hq⟩, hg, rfl⟩
    cases hq
    exact ⟨i, hi, v, hv, a, ha, b, hb, g, ⟨old, hold, hg⟩, _, ⟨of, hof, rfl⟩, rfl⟩

theorem otherMembers_goldenDocument :
    (otherMembers (merged golden fw members)).Perm
      (((rawMessages members).filter fun e => decide (e.1 ≠ goldenKey ∧ e.1 ≠ firmwareKey)).map
        fun e => (e.1, e.2.canonical)) := by
  let P : Text → Bool := fun key => decide (key ≠ goldenKey ∧ key ≠ firmwareKey)
  have hperm := filter_rawMembers (goldenDocument golden fw (rawMessages members)) P
  rw [filter_goldenDocument (by simp [P]) (by simp [P])] at hperm
  refine (hperm.map fun m => (m.1.unquote, m.2.canonical)).trans ?_
  simp [P, Function.comp_def]

theorem otherMembers_perm_iff : (otherMembers (merged golden fw members)).Perm (otherMembers members) ↔
    ((members.filter isOther).map fun m => m.1.unquote).Nodup := by
  have hnames : (otherMembers members).map fst = (members.filter isOther).map fun m => m.1.unquote := by
    rw [otherMembers, List.map_map]
    rfl
  have hdoc : (otherMembers (merged golden fw members)).Perm _ := otherMembers_goldenDocument
  constructor
  · intro h
    rw [← hnames, ((hdoc.symm.trans h).map fst).nodup_iff.symm, List.map_map]
    exact (nodup_rawMessages members).sublist (filter_sublist.map _)
  · intro h
    refine hdoc.trans ?_
    rw [filter_rawMessages (P := fun key => decide (key ≠ goldenKey ∧ key ≠ firmwareKey)) h, map_reverse]
    refine (reverse_perm _).trans ?_
    rw [List.map_map]
    exact Perm.refl _

structure Keeps (members members' : List (Literal × Json)) (p p' : Policy) : Prop where
  tables : SameTables p p'
  others : (otherMembers members').Perm (otherMembers members)

structure Records (golden : GoMap Int Text) (fw : Option Firmware) (p : Policy) : Prop where
  values : ∃ values, p.golden = [(bank, values)] ∧ ∀ i, values.lookup i = golden.get i
  firmware : p.goldenFirmware = fw

variable {p q : Policy} {raw data : Text} {d : Disk} {path : Text}

theorem validate_tables : { p with golden := [], goldenFirmware := none }.validate = .ok () ↔
    (∀ phase ∈ [phaseInitrd, phaseReady], p.checkPhase phase = .ok ()) ∧
      ∀ e ∈ p.pcr13, Policy.checkVersion e = .ok () := by
  rw [Policy.validate_eq_ok_iff]
  exact ⟨fun h => ⟨h.1, h.2.1⟩, fun h => ⟨h.1, h.2, rfl, by simp⟩⟩

theorem bank_of_checkBank {e : String × List (Int × Text)} (h : Policy.checkBank e = .ok ()) : e.1 = bank := by
  unfold Policy.checkBank at h
  split at h
  · cases h
  · exact not_not.1 ‹_›

theorem writable_of_validate (h : q.validate = .ok ()) : Writable q := by
  obtain ⟨h11, h13, -, hbanks⟩ := Policy.validate_eq_ok_iff.1 h
  exact ⟨validate_tables.2 ⟨h11, h13⟩, fun e he => bank_of_checkBank (hbanks e he)⟩

theorem assign_bank {old : List (String × List (Int × Text))} (h : ∀ e ∈ old, e.1 = bank) (values : List (Int × Text)) :
    assign old bank values = [(bank, values)] := by
  rw [assign, filter_eq_nil_iff.2 fun e he => by simpa using h e he]

theorem goldenFile_written {golden : GoMap Int Text} (hraw : parse raw = some (.obj members))
    (h : goldenFile (some golden) fw raw = .ok data) :
    ∃ q p, Policy.unmarshal (.obj (rest members)) = some q ∧ Writable q ∧ parsePolicy data = .ok p ∧
      p.pcr11 = q.pcr11 ∧ p.pcr13 = q.pcr13 ∧
      (∃ values, p.golden = [(bank, values)] ∧ ∀ i, values.lookup i = golden.get i) ∧
      p.goldenFirmware = fw.map (Firmware.onto q.goldenFirmware) := by
  obtain ⟨-, p, hp, hv, hu⟩ := goldenFile_ok hraw h
  obtain ⟨q, g, hq, hg, rfl⟩ := unmarshal_written.1 hu
  obtain ⟨values, rfl, hvalues⟩ := intoGolden_goldenJson hg
  obtain ⟨h11, h13, -, hbanks⟩ := Policy.validate_eq_ok_iff.1 hv
  have hbank : ∀ e ∈ q.golden, e.1 = bank := fun e he => by
    by_contra hne
    exact hne (bank_of_checkBank (hbanks e (mem_assign.2 (.inr ⟨he, hne⟩))))
  exact ⟨q, _, hq, ⟨validate_tables.2 ⟨h11, h13⟩, hbank⟩, hp, rfl, rfl, ⟨values, assign_bank hbank values, hvalues⟩, rfl⟩

theorem Unambiguous.keeps (hu : Unambiguous d path p members) {p' : Policy}
    (hq : Policy.unmarshal (.obj (rest members)) = some q) (hw : Writable q) (h11 : p'.pcr11 = q.pcr11)
    (h13 : p'.pcr13 = q.pcr13) :
    Keeps members (merged golden fw members) p p' := by
  obtain ⟨-, honce, htables, -⟩ := hu.written q hq hw
  exact ⟨⟨fun k => h11 ▸ htables.pcr11 k, fun k => h13 ▸ htables.pcr13 k⟩, otherMembers_perm_iff.2 honce⟩

theorem Unambiguous.write (hu : Unambiguous d path p members) {golden : GoMap Int Text}
    (hraw : parse raw = some (.obj members)) (h : goldenFile (some golden) fw raw = .ok data) :
    ∃ members' p', parse data = some (.obj members') ∧ parsePolicy data = .ok p' ∧
      Keeps members members' p p' ∧ Records golden fw p' := by
  obtain ⟨q, p', hq, hw, hp', h11, h13, hvalues, hfw⟩ := goldenFile_written hraw h
  refine ⟨_, p', (goldenFile_ok hraw h).1, hp', hu.keeps hq hw h11 h13, hvalues, ?_⟩
  obtain ⟨-, -, -, hclean⟩ := hu.written q hq hw
  rw [hfw]
  cases fw with
  | none => rfl
  | some f =>
    have hsame : ∀ text : String, (if text = "" then "" else text) = text := fun text => by
      split
      · rw [‹text = ""›]
      · rfl
    have honto : Firmware.onto q.goldenFirmware f = f := by
      cases hold : q.goldenFirmware with
      | none => simp [Firmware.onto, hsame]
      | some old =>
        obtain ⟨hpackage, hversion⟩ := hclean old hold
        simp [Firmware.onto, hpackage, hversion, hsame]
    rw [map_some, honto]

theorem Unambiguous.clear (hu : Unambiguous d path p members) (hraw : parse raw = some (.obj members))
    (h : goldenFile none none raw = .ok data) :
    ∃ members' p', parse data = some (.obj members') ∧ parsePolicy data = .ok p' ∧
      Keeps members members' p p' ∧ p'.golden = [] ∧ p'.goldenFirmware = none := by
  obtain ⟨hparse, q, hp', hv, hq⟩ := goldenFile_ok hraw h
  obtain ⟨hgolden, hfw⟩ := hu.cleared q hq hv
  exact ⟨_, q, hparse, hp', hu.keeps hq (writable_of_validate hv) rfl rfl, hgolden, hfw⟩

theorem Writable.goldenFile {fw : Option Firmware} (hw : Writable q) (hraw : parse raw = some (.obj members))
    (hq : Policy.unmarshal (.obj (rest members)) = some q) (hfw : Policy.checkFirmware fw = .ok ()) :
    ∃ data, goldenFile (some ∅) fw raw = .ok data := by
  obtain ⟨h11, h13⟩ := validate_tables.1 hw.tables
  refine goldenFile_of_valid hraw (unmarshal_written.2 ⟨q, [(bank, [])], hq, ?_, rfl⟩)
    (Policy.validate_eq_ok_iff.2 ⟨h11, h13, ?_, ?_⟩)
  · rw [← assign_bank hw.banks]
    rfl
  · cases fw with
    | none => rfl
    | some f => exact hfw
  · simp [Policy.checkBank, checkAll]

end precision

namespace Sample

def digest (c : Char) : Text := replicate 64 c

def policyPath : Text := "policy.json".toList

def disk (content : Text) : Disk where
  entry name := if name = policyPath then some 0 else none
  content _ := content
  next := 1
  used name i h := by
    split at h <;> cases h
    exact Nat.one_pos

def golden : GoMap Int Text := ((∅ : GoMap Int Text).insert 13 (digest 'c')).insert 0 (digest 'd')

def firmware : Firmware := { sha256 := digest 'e' }

def plain (p : Policy) (members : List (Literal × Json)) : Bool :=
  match Policy.unmarshal (.obj (rest members)) with
  | some q => decide (q.pcr11 = p.pcr11 ∧ q.pcr13 = p.pcr13 ∧ q.golden = [] ∧ q.goldenFirmware = none ∧
      ((members.filter isOther).map fun m => m.1.unquote).Nodup)
  | none => true

end Sample
open Sample

end VmManager.Images
