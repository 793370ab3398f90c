import VmManager.Data.Pdqsort
import VmManager.GuestImage.Contents
import VmManager.Vm.Types

/-! Full references. A reference may also be the id of another image, since ids may contain underscores;
that id is longer than the id of the image the reference is of, so the catalog lists the other image later
and the search does not get to it. Versions need not be comparable for that. -/
namespace VmManager.Images
open Encoding GuestImage List Option
variable {lib : Golib} {d : Node} {images : List Image} {img x y : Image} {found : Vm.Image}

/-- An image as the service uses it; `policyOf` parses its policy. -/
def Image.forService (policyOf : Image → Except String Attest.Policy) (img : Image) : Vm.Image where
  ref := String.ofList img.ref
  kubernetesVersions := img.kubernetesVersions.map String.ofList
  policy := policyOf img

def Catalog.resolve (dir : String) (policyOf : Image → Except String Attest.Policy) (images : List Image) :
    Option String → Except String Vm.Image
  | none => match Catalog.default images with
    | some img => .ok (img.forService policyOf)
    | none => .error ("not found: no images in " ++ dir)
  | some ref => match Catalog.get images ref.toList with
    | some img => .ok (img.forService policyOf)
    | none => .error ("not found: image \"" ++ ref ++ "\"")

theorem ranks_before : Ranks Image.before Image.id where
  lt x y h := by simp [Image.before, h.ne, h]
  gt x y h := by simp [Image.before, h.ne', h.le]

theorem id_lt_ref (img : Image) : img.id < img.ref := by
  unfold Image.ref
  induction img.id with
  | nil => exact nil_lt_cons _ _
  | cons c id ih => exact cons_lt_cons_iff.2 (.inr ⟨rfl, ih⟩)

theorem refresh_ids (hsort : lib.sort.IsPdq) (h : refresh lib d = some images) :
    images.Pairwise fun x y => x.id ≤ y.id := by
  obtain ⟨entries, -, rfl⟩ := map_eq_some_iff.1 h
  exact pairwise_map.1 ((hsort Image.before _).ranked ranks_before (by simp)).sorted

theorem imageAt_ref (h : refresh lib d = some images) (himg : img ∈ images) :
    imageAt lib d img.ref = some img := by
  rw [refresh_eq] at h
  obtain ⟨entries, -, rfl⟩ := map_eq_some_iff.1 h
  obtain ⟨stem, -, hstem⟩ := mem_filterMap.1 ((lib.sort.perm _ _).mem_iff.1 himg)
  have hat := hstem
  obtain ⟨p, hsplit, rfl⟩ := map_eq_some_iff.1 hstem
  have href : p.1 ++ '_' :: p.2 = stem := splitStem_eq hsplit
  rw [Image.ref, href]
  exact hat

theorem eq_of_ref (h : refresh lib d = some images) (hx : x ∈ images) (hy : y ∈ images)
    (href : x.ref = y.ref) : x = y := by
  have hat := imageAt_ref h hx
  rw [href, imageAt_ref h hy] at hat
  exact (some.inj hat).symm

theorem same_of_ref {d' : Node} {images' : List Image} (h : refresh lib d = some images)
    (h' : refresh lib d' = some images') (hx : x ∈ images) (hy : y ∈ images')
    (href : x.ref = y.ref) : x.id = y.id ∧ x.version = y.version ∧ x.uki = y.uki ∧ x.disk = y.disk := by
  have hfields : ∀ {d : Node} {stem : Text} {img : Image}, imageAt lib d stem = some img →
      (img.id, img.version) ∈ splitStem stem ∧ img.uki = stem ++ ukiSuffix ∧
        img.disk = stem ++ diskSuffix := by
    intro d stem img hat
    obtain ⟨p, hsplit, rfl⟩ := map_eq_some_iff.1 hat
    exact ⟨hsplit, rfl, rfl⟩
  obtain ⟨hsplit, huki, hdisk⟩ := hfields (imageAt_ref h hx)
  obtain ⟨hsplit', huki', hdisk'⟩ := hfields (imageAt_ref h' hy)
  rw [href] at hsplit huki hdisk
  have hpair : (x.id, x.version) = (y.id, y.version) := some.inj (hsplit.symm.trans hsplit')
  obtain ⟨hid, hversion⟩ := Prod.mk.inj hpair
  exact ⟨hid, hversion, huki.trans huki'.symm, hdisk.trans hdisk'.symm⟩

theorem get_ref (hsort : lib.sort.IsPdq) (h : refresh lib d = some images) (himg : img ∈ images) :
    Catalog.get images img.ref = some img := by
  have hsome : (Catalog.get images img.ref).isSome = true := find?_isSome.2 ⟨img, himg, by simp⟩
  obtain ⟨x, hx⟩ := isSome_iff_exists.1 hsome
  obtain ⟨hmatch, pre, post, hsplit, hpre⟩ := find?_eq_some_iff_append.1 hx
  have hmem : x ∈ images := by simp [hsplit]
  have hafter : img = x ∨ img ∈ post := by
    rw [hsplit] at himg
    rcases mem_append.1 himg with hin | hin
    · exact absurd (hpre img hin) (by simp)
    · exact mem_cons.1 hin
  have heq : x = img := by
    rcases of_decide_eq_true hmatch with href | hid
    · exact eq_of_ref h hmem himg href
    · -- The image of that id comes after the one of the reference.
      rcases hafter with rfl | hpost
      · rfl
      · have hsorted := refresh_ids hsort h
        rw [hsplit] at hsorted
        have hle : x.id ≤ img.id := (pairwise_cons.1 (pairwise_append.1 hsorted).2.1).1 img hpost
        exact absurd (hid ▸ id_lt_ref img) (not_lt.2 hle)
  rw [hx, heq]

theorem get_bare {ref : Text} (hbare : ∀ img ∈ images, img.ref ≠ ref) :
    Catalog.get images ref = images.find? fun img => img.id = ref := by
  unfold Catalog.get
  induction images with
  | nil => rfl
  | cons x images ih =>
    rw [find?_cons, find?_cons, ih (forall_mem_cons.1 hbare).2]
    simp [hbare x mem_cons_self]

theorem default_mem (h : Catalog.default images = some img) : img ∈ images := by
  cases images with
  | nil => cases h
  | cons first rest =>
    cases h
    have hfold : ∀ (rest : List Image) (best : Image), rest.foldl (fun best img =>
        if compareVersions img.version best.version > 0 then img else best) best ∈ best :: rest := by
      intro rest
      induction rest with
      | nil => exact fun best => mem_singleton.2 rfl
      | cons x rest ih =>
        intro best
        rw [foldl_cons]
        rcases mem_cons.1 (ih (if compareVersions x.version best.version > 0 then x else best)) with
          heq | hin
        · rw [heq]
          split <;> simp
        · simp [hin]
    exact hfold rest first

theorem resolve_ok {dir : String} {policyOf : Image → Except String Attest.Policy} {ref : Option String}
    (h : Catalog.resolve dir policyOf images ref = .ok found) :
    ∃ img ∈ images, found = img.forService policyOf := by
  unfold Catalog.resolve at h
  split at h
  · split at h <;> cases h
    rename_i img himg
    exact ⟨img, default_mem himg, rfl⟩
  · split at h <;> cases h
    rename_i img himg
    exact ⟨img, mem_of_find?_eq_some himg, rfl⟩

theorem resolveImage_ok {catalog : Option String → Except String Vm.Image} {spec spec' : Vm.Spec}
    (h : Vm.resolveImage catalog spec = .ok (spec', found)) :
    spec'.image = found.ref ∧ ∃ ref, catalog ref = .ok found := by
  unfold Vm.resolveImage at h
  split at h
  · cases h
  rename_i img himg
  dsimp only at h
  split at h
  · cases h
    exact ⟨rfl, _, himg⟩
  · split at h <;> cases h
    exact ⟨rfl, _, himg⟩

/-- In the catalog of every directory, a full reference picks its image, and an id that is nobody's reference
the first image listed with that id; and the reference that is stored for a VM picks the image the VM was
created from in every later catalog that still lists it. -/
theorem references_exact (lib : Golib) (hsort : lib.sort.IsPdq) (d : Node) (images : List Image)
    (h : refresh lib d = some images) : (∀ img ∈ images, Catalog.get images img.ref = some img) ∧
    (∀ ref, (∀ img ∈ images, img.ref ≠ ref) → Catalog.get images ref = images.find? fun img => img.id = ref) ∧
    ∀ dir policyOf spec spec' found, Vm.resolveImage (Catalog.resolve dir policyOf images) spec = .ok (spec', found) →
      ∃ img ∈ images, found = img.forService policyOf ∧ spec'.image = String.ofList img.ref ∧
        ∀ d' images', refresh lib d' = some images' → ∀ img' ∈ images', img'.ref = img.ref →
          Catalog.get images' spec'.image.toList = some img' ∧ img'.id = img.id ∧
          img'.version = img.version ∧ img'.uki = img.uki ∧ img'.disk = img.disk := by
  refine ⟨fun img himg => get_ref hsort h himg, fun ref hbare => ?_, fun dir policyOf spec spec' found hok => ?_⟩
  · exact get_bare hbare
  · obtain ⟨himage, ref, hcatalog⟩ := resolveImage_ok hok
    obtain ⟨img, himg, rfl⟩ := resolve_ok hcatalog
    refine ⟨img, himg, rfl, himage, fun d' images' h' img' himg' href => ⟨?_, ?_⟩⟩
    · rw [himage, Image.forService, String.toList_ofList, ← href]
      exact get_ref hsort h' himg'
    · exact same_of_ref h' h himg' himg href

namespace Sample

def twins : Node := .dir [("a_1.efi".toList, .file []), ("a_1.raw".toList, .file []),
  ("a_1_2.efi".toList, .file []), ("a_1_2.raw".toList, .file [])]

def twinImages : List Image := (refresh golib twins).getD []

end Sample
open Sample

theorem references_exact_twins : ∃ x ∈ twinImages, ∃ y ∈ twinImages, x.ref = y.id ∧ x ≠ y ∧
      Catalog.get twinImages y.id = some x := by
  have hlisted : refresh golib twins = some twinImages := by decide +kernel
  have hx : ∃ x ∈ twinImages, ∃ y ∈ twinImages, x.ref = y.id ∧ x ≠ y := by decide +kernel
  obtain ⟨x, hx, y, hy, href, hne⟩ := hx
  have hget := (references_exact golib SortSlice.insertion_isPdq twins twinImages
    hlisted).1 x hx
  rw [href] at hget
  exact ⟨x, hx, y, hy, href, hne, hget⟩

end VmManager.Images
