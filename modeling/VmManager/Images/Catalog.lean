import Mathlib.Data.List.Sort
import VmManager.Images.Versions

/-! The catalog of guest images: what it finds in an image directory, and how a reference picks an image.
Paths are relative to the directory. -/
namespace VmManager.Images
open Encoding List
variable {vs : List Text} {x : Image}

/-- What is in a directory. A link is given with what it leads to in the end, if anything. -/
inductive Node where
  | file (data : Text)
  | dir (entries : List (Text × Node))
  | link (target : Option Node)
  | other

namespace Node

def follow : Node → Option Node
  | .link (some n) => n.follow
  | .link none => none
  | n => some n

def isDir : Node → Bool
  | .dir _ => true
  | _ => false

def stat : List Text → Node → Option Node
  | [], n => n.follow
  | name :: rest, n => match n.follow with
    | some (.dir entries) => match entries.lookup name with
      | some m => m.stat rest
      | none => none
    | _ => none

def readFile (path : List Text) (n : Node) : Option Text :=
  match n.stat path with
  | some (.file data) => some data
  | _ => none

def readDir (n : Node) : Option (List (Text × Node)) :=
  match n.follow with
  | some (.dir entries) => some (entries.insertionSort fun x y => x.1 ≤ y.1)
  | _ => none

end Node

/-- What is used of Go's sort, strings and encoding/json. `policyHead` is the image id and version a policy
names, if it is a JSON object. -/
structure Golib where
  sort : SortSlice
  fields : Text → List Text
  jsonValid : Text → Bool
  policyHead : Text → Option (Text × Text)

def ukiSuffix : Text := ".efi".toList
def diskSuffix : Text := ".raw".toList
def policySuffix : Text := ".policy.json".toList
def policyFile : Text := "policy.json".toList
def sysupdateDirName : Text := "sysupdate".toList
def kubernetesComponent : Text := "kubernetes".toList
def kubernetesPrefix : Text := "kubernetes_".toList
def sumsFile : Text := "SHA256SUMS".toList

structure Image where
  id : Text
  version : Text
  uki : Text
  disk : Text
  sysupdateDir : Option Text
  kubernetesVersions : List Text
  policy : Option Text
deriving DecidableEq

def Image.ref (i : Image) : Text := i.id ++ '_' :: i.version

def cutSuffix (suffix t : Text) : Option Text :=
  if suffix.isSuffixOf t then some (t.take (t.length - suffix.length)) else none

def splitStem (stem : Text) : Option (Text × Text) :=
  match stem.reverse.dropWhile (· ≠ '_') with
  | '_' :: id =>
    if id = [] ∨ stem.reverse.takeWhile (· ≠ '_') = [] then none
    else some (id.reverse, (stem.reverse.takeWhile (· ≠ '_')).reverse)
  | _ => none

section catalog
variable (lib : Golib) (d : Node)

def versionOfLine (line : Text) : Option Text :=
  let fields := lib.fields line
  if fields.length < 2 then none
  else
    let file := fields.getLastD []
    let file := if file.head? = some '*' then file.tail else file
    if kubernetesPrefix.isPrefixOf file then
      (cutSuffix diskSuffix file).map fun t => t.drop kubernetesPrefix.length
    else none

def kubernetesVersions : List Text :=
  match d.readFile [sysupdateDirName, kubernetesComponent, sumsFile] with
  | none => []
  | some data => lib.sort.sort (fun v w => compareVersions v w > 0)
      ((data.splitOn '\n').filterMap (versionOfLine lib))

def readJSON (path : List Text) : Option Text := (d.readFile path).filter fun data => lib.jsonValid data

def perImagePolicy (id version : Text) : Text := id ++ '_' :: version ++ policySuffix

def policySource (id version : Text) : Option (Text × Text) :=
  match readJSON lib d [perImagePolicy id version] with
  | some raw => some (perImagePolicy id version, raw)
  | none => match readJSON lib d [policyFile] with
    | none => none
    | some raw => match lib.policyHead raw with
      | none => none
      | some (imageID, imageVersion) =>
        if (imageID ≠ [] ∧ imageID ≠ id) ∨ (imageVersion ≠ [] ∧ imageVersion ≠ version) then none
        else some (policyFile, raw)

def policyPath (img : Image) : Text :=
  match policySource lib d img.id img.version with
  | some (path, _) => path
  | none => perImagePolicy img.id img.version

def sysupdateDir : Option Text :=
  if (d.stat [sysupdateDirName]).any Node.isDir then some sysupdateDirName else none

def imageOf (e : Text × Node) : Option Image :=
  if e.2.isDir then none
  else match cutSuffix ukiSuffix e.1 with
    | none => none
    | some stem => match splitStem stem with
      | none => none
      | some (id, version) =>
        if (d.stat [stem ++ diskSuffix]).isSome then some
          { id, version, uki := e.1, disk := stem ++ diskSuffix
            sysupdateDir := sysupdateDir d
            kubernetesVersions := kubernetesVersions lib d
            policy := (policySource lib d id version).map Prod.snd }
        else none

def Image.before (x y : Image) : Bool :=
  if x.id ≠ y.id then x.id < y.id else compareVersions x.version y.version > 0

def refresh : Option (List Image) :=
  d.readDir.map fun entries => lib.sort.sort Image.before (entries.filterMap (imageOf lib d))

end catalog

namespace Catalog

def get (images : List Image) (ref : Text) : Option Image := images.find? fun img => img.ref = ref ∨ img.id = ref

def default : List Image → Option Image
  | [] => none
  | img :: images => some (images.foldl (fun best img =>
      if compareVersions img.version best.version > 0 then img else best) img)

end Catalog

section order
variable {lib : Golib} {images : List Image}

def versionsOf (images : List Image) (id : Text) : List Text := (images.filter fun img => img.id = id).map Image.version

theorem before_false {x y : Image} (h : Image.before x y = false) :
    y.id < x.id ∨ (x.id = y.id ∧ compareVersions x.version y.version ≤ 0) := by
  unfold Image.before at h
  split at h
  · rename_i hne
    have hle : y.id ≤ x.id := not_lt.1 (by simpa using h)
    exact .inl (lt_of_le_of_ne hle (Ne.symm hne))
  · rename_i heq
    exact .inr ⟨by simpa using heq, by simpa using h⟩

theorem mem_versionsOf (hx : x ∈ images) : x.version ∈ versionsOf images x.id :=
  mem_map_of_mem (mem_filter.2 ⟨hx, by simp⟩)

theorem weakOrder_before (h : ∀ id, Regular (versionsOf images id)) : WeakOrder Image.before images := by
  have hle : ∀ x y : Image, compareVersions x.version y.version ≤ 0 → x.id = y.id →
      Image.before x y = false := by
    intro x y hv hid
    unfold Image.before
    rw [if_neg (by simpa using hid)]
    simpa using hv
  have hlt : ∀ x y : Image, y.id < x.id → Image.before x y = false := by
    intro x y hid
    unfold Image.before
    rw [if_pos hid.ne']
    simpa using hid.le
  refine ⟨fun x _ y _ hxy => ?_, fun x hx y hy z hz hyx hzy => ?_⟩
  · unfold Image.before at hxy
    split at hxy
    · exact hlt y x (by simpa using hxy)
    · rename_i heq
      have heq : x.id = y.id := by simpa using heq
      refine hle y x ?_ heq.symm
      have hpos : 0 < compareVersions x.version y.version := by simpa using hxy
      rw [compareVersions_swap]
      omega
  · rcases before_false hyx with hid | ⟨hid, hv⟩ <;> rcases before_false hzy with hid' | ⟨hid', hv'⟩
    · exact hlt z x (hid.trans hid')
    · exact hlt z x (hid' ▸ hid)
    · exact hlt z x (hid ▸ hid')
    · refine hle z x ((h x.id).trans ?_ ?_ (mem_versionsOf hx) hv' hv) (hid'.trans hid)
      · rw [← hid, ← hid']
        exact mem_versionsOf hz
      · rw [← hid]
        exact mem_versionsOf hy

theorem versionsOf_perm {images' : List Image} (h : images'.Perm images)
    (hr : ∀ id, Regular (versionsOf images id)) (id : Text) : Regular (versionsOf images' id) :=
  (hr id).subset fun _ hv => ((h.filter _).map _).mem_iff.1 hv

theorem refresh_sorted {d : Node} (h : refresh lib d = some images) (hr : ∀ id, Regular (versionsOf images id)) :
    images.Pairwise fun x y => x.id = y.id → compareVersions y.version x.version ≤ 0 := by
  obtain ⟨entries, -, rfl⟩ := Option.map_eq_some_iff.1 h
  have hperm := lib.sort.perm Image.before (entries.filterMap (imageOf lib d))
  have hw := weakOrder_before (versionsOf_perm hperm.symm hr)
  refine (lib.sort.sorted Image.before _ hw).imp fun {x y} hxy hid => ?_
  rcases before_false hxy with hlt | ⟨-, hv⟩
  · exact absurd hid hlt.ne
  · exact hv

theorem compareVersions_self (v : Text) : compareVersions v v = 0 := by
  have h := compareVersions_swap v v
  omega

theorem get_highest {ref : Text} {img : Image} (hget : Catalog.get images ref = some img)
    (hsorted : images.Pairwise fun x y => x.id = y.id → compareVersions y.version x.version ≤ 0)
    (hbare : ∀ x ∈ images, x.ref ≠ ref) (hx : x ∈ images) (hid : x.id = ref) :
    img.id = ref ∧ compareVersions x.version img.version ≤ 0 := by
  obtain ⟨himg, pre, post, rfl, hpre⟩ := find?_eq_some_iff_append.1 hget
  have hmem : img ∈ pre ++ img :: post := by simp
  have himg : img.id = ref := (of_decide_eq_true himg).resolve_left (hbare img hmem)
  refine ⟨himg, ?_⟩
  rcases mem_append.1 hx with hx | hx
  · have hno := hpre x hx
    simp [hid] at hno
  · rcases mem_cons.1 hx with rfl | hx
    · exact (compareVersions_self _).le
    · exact (pairwise_cons.1 (pairwise_append.1 hsorted).2.1).1 x hx (himg.trans hid.symm)

theorem default_highest {best : Image} (hr : Regular (images.map Image.version))
    (h : Catalog.default images = some best) :
    best ∈ images ∧ ∀ x ∈ images, compareVersions x.version best.version ≤ 0 := by
  cases images with
  | nil => cases h
  | cons img images =>
    -- The best so far is at least every image seen so far.
    have hfold : ∀ (seen rest : List Image) (b : Image), b ∈ seen → (∀ x ∈ seen, compareVersions x.version b.version ≤ 0) →
        (∀ x ∈ seen ++ rest, x ∈ img :: images) →
        let best := rest.foldl (fun best img =>
          if compareVersions img.version best.version > 0 then img else best) b
        best ∈ seen ++ rest ∧ ∀ x ∈ seen ++ rest, compareVersions x.version best.version ≤ 0 := by
      intro seen rest
      induction rest generalizing seen with
      | nil =>
        intro b hb hle _
        simpa using ⟨hb, hle⟩
      | cons y rest ih =>
        intro b hb hle hsub
        have hv : ∀ x ∈ seen ++ y :: rest, x.version ∈ (img :: images).map Image.version :=
          fun x hx => mem_map_of_mem (hsub x hx)
        have hnext := ih (seen ++ [y]) (if compareVersions y.version b.version > 0 then y else b)
        rw [append_assoc, singleton_append] at hnext
        refine hnext ?_ ?_ hsub
        · split
          · simp
          · simp [hb]
        · intro x hx
          rcases mem_append.1 hx with hx | hx
          · split
            · have hby : compareVersions b.version y.version ≤ 0 := by
                rw [compareVersions_swap]
                omega
              exact hr.trans (hv x (by simp [hx])) (hv b (by simp [hb])) (hv y (by simp)) (hle x hx) hby
            · exact hle x hx
          · rw [mem_singleton.1 hx]
            split
            · exact (compareVersions_self _).le
            · omega
    cases h
    simpa using hfold [img] images img (by simp) (by simp [compareVersions_self]) (by simp)

theorem kubernetesVersions_highest {d : Node} {v : Text}
    (h : kubernetesVersions lib d = v :: vs) (hr : Regular (v :: vs)) {w : Text} (hw : w ∈ v :: vs) :
    compareVersions w v ≤ 0 := by
  unfold kubernetesVersions at h
  split at h
  · cases h
  rename_i data hdata
  generalize (data.splitOn '\n').filterMap (versionOfLine lib) = l at h
  have hperm := lib.sort.perm (fun v w => compareVersions v w > 0) l
  rw [h] at hperm
  have hl : ∀ x ∈ l, x ∈ v :: vs := fun x hx => hperm.mem_iff.2 hx
  have hweak : WeakOrder (fun v w => decide (compareVersions v w > 0)) l := by
    refine ⟨fun a _ b _ hab => ?_, fun a ha b hb c hc hba hcb => ?_⟩
    · have hab : compareVersions a b > 0 := by simpa using hab
      rw [compareVersions_swap a b]
      simp
      omega
    · have hba : compareVersions b a ≤ 0 := by simpa using hba
      have hcb : compareVersions c b ≤ 0 := by simpa using hcb
      simpa using hr.trans (hl c hc) (hl b hb) (hl a ha) hcb hba
  have hsorted := lib.sort.sorted _ l hweak
  rw [h] at hsorted
  rcases mem_cons.1 hw with rfl | hw
  · exact (compareVersions_self _).le
  · simpa using (pairwise_cons.1 hsorted).1 w hw

/-- Swapping the versions always swaps the sign. As long as the versions that are compared are regular, the
comparison is transitive, and regular they must be for that, but for versions that tie at a position and differ
further on; Refresh lists the versions of each id in non-increasing order, what a bare id and
the default pick is not exceeded by another candidate, and neither is the first Kubernetes version. -/
theorem versions_ordered (lib : Golib) : (∀ a b, compareVersions b a = -compareVersions a b) ∧
    (∀ vs : List Text, Regular vs ↔ ∀ a ∈ vs, ∀ b ∈ vs, ∀ c ∈ vs, compareVersions a b ≤ 0 →
      compareVersions b c ≤ 0 → compareVersions a c ≤ 0) ∧
    (∀ d images, refresh lib d = some images → (∀ id, Regular (versionsOf images id)) →
      (images.Pairwise fun x y => x.id = y.id → compareVersions y.version x.version ≤ 0) ∧
      ∀ ref img, Catalog.get images ref = some img → (∀ x ∈ images, x.ref ≠ ref) →
        ∀ x ∈ images, x.id = ref → img.id = ref ∧ compareVersions x.version img.version ≤ 0) ∧
    (∀ d images best, refresh lib d = some images → Regular (images.map Image.version) →
      Catalog.default images = some best → best ∈ images ∧ ∀ x ∈ images, compareVersions x.version best.version ≤ 0) ∧
    ∀ d v vs, kubernetesVersions lib d = v :: vs → Regular (v :: vs) →
      ∀ w ∈ v :: vs, compareVersions w v ≤ 0 := by
  refine ⟨compareVersions_swap, fun vs => ⟨fun hr a ha b hb c hc => hr.trans ha hb hc, regular_of_ordered⟩,
    fun d images h hr => ⟨refresh_sorted h hr, fun ref img hget hbare x hx hid => ?_⟩,
    fun d images best _ hr hbest => default_highest hr hbest, fun d v vs h hr w hw => ?_⟩
  · exact get_highest hget (refresh_sorted h hr) hbare hx hid
  · exact kubernetesVersions_highest h hr hw

end order

namespace Sample

theorem regular_of_three (hlen : ∀ v ∈ vs, (v.splitOn '.').length ≤ 3)
    (h : ∀ a ∈ vs, ∀ b ∈ vs, ∀ c ∈ vs, ∀ i < 3, Aligned (component a i) (component b i) (component c i)) :
    Regular vs := by
  intro a ha b hb c hc i _ _ _
  by_cases hi : i < 3
  · exact .inl (h a ha b hb c hc i hi)
  · have hnil : ∀ v ∈ vs, (v.splitOn '.').getD i [] = [] := fun v hv => by
      rw [getD_eq_getElem?_getD, getElem?_eq_none ((hlen v hv).trans (by omega))]
      rfl
    left
    unfold component
    rw [hnil a ha, hnil b hb, hnil c hc]
    decide

def golib : Golib where
  sort := .insertion
  fields t := t.splitOn ' '
  jsonValid _ := true
  policyHead _ := some ([], [])

end Sample

theorem versions_ordered_releases :
    Regular ["0.9.0-rc1".toList, "0.9.0".toList, "0.10.0".toList] ∧
    compareVersions "0.9.0-rc1".toList "0.9.0".toList ≤ 0 ∧
    compareVersions "0.9.0".toList "0.10.0".toList ≤ 0 ∧
    compareVersions "0.9.0-rc1".toList "0.10.0".toList ≤ 0 := by
  have hr : Regular ["0.9.0-rc1".toList, "0.9.0".toList, "0.10.0".toList] :=
    Sample.regular_of_three (by decide +kernel) (by decide +kernel)
  have hab : compareVersions "0.9.0-rc1".toList "0.9.0".toList ≤ 0 := by decide +kernel
  have hbc : compareVersions "0.9.0".toList "0.10.0".toList ≤ 0 := by decide +kernel
  exact ⟨hr, hab, hbc, ((versions_ordered Sample.golib).2.1 _).1 hr _ (by simp) _ (by simp) _ (by simp) hab hbc⟩

theorem compareVersions_cycle : compareVersions "10-a".toList "9-b".toList < 0 ∧
    compareVersions "9-b".toList "9".toList < 0 ∧ compareVersions "9".toList "10-a".toList < 0 := by
  decide +kernel

end VmManager.Images
