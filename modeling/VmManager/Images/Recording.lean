import VmManager.Attest.Verdict
import VmManager.Images.Catalog
import VmManager.Images.Golden
import VmManager.Vm.Types

/-! `vm-manager image golden`: the golden values of an image, taken from what the running server recorded of one
of its VMs. The command does not ask which image that VM runs. -/
namespace VmManager.Images
open Encoding Attest Tpmquote List Option GoMap Prod

/-- The image directory, as the catalog looks at it and by the names of its files. -/
structure ImageDir where
  tree : Node
  disk : Disk
  same : ∀ name, tree.readFile [name] = disk.read name

/-- What the running server answers. The PCR values of a quote are as the verifier writes them. -/
structure Server where
  attestation : String → Except String Vm.Attestation
  firmware : Except String (Option Firmware)
  hex : ∀ id att q, attestation id = .ok att → att.ready = some q → ∃ values, q.pcrs = hexPCRs values

inductive GoldenSource where
  | fromVM (id : String)
  | clear

inductive RecordError where
  | load | notFound | noPolicy
  | query (text : String)
  | noReadyQuote (initrdVerified : Bool)
  | incomplete (found : Nat)
  | noFirmware
  | file (err : GoldenError)
deriving DecidableEq, Repr

def goldenIndexes : List Nat := goldenFirmwarePCRs ++ [pcrSysext]

def goldenFromPCRs (pcrs : List (Nat × Text)) : GoMap Int Text :=
  goldenIndexes.foldl (fun out i => match pcrs.lookup i with
    | some v => out.insert i v
    | none => out) ∅

def fetchGolden (server : Server) (id : String) : Except RecordError (GoMap Int Text × Firmware) :=
  match server.attestation id with
  | .error err => .error (.query err)
  | .ok att => match att.ready.filter (·.verified) with
    | none => .error (.noReadyQuote (att.initrd.any (·.verified)))
    | some ready =>
      let golden := goldenFromPCRs ready.pcrs
      if golden.keys.length ≠ goldenIndexes.length then .error (.incomplete golden.keys.length)
      else match server.firmware with
        | .error err => .error (.query err)
        | .ok none => .error .noFirmware
        | .ok (some fw) => .ok (golden, fw)

def ImageDir.image (lib : Golib) (dir : ImageDir) (ref : Text) : Option Image :=
  (refresh lib dir.tree).bind fun images => Catalog.get images ref

def runImageGolden (lib : Golib) (faults : Faults) (server : Server) (dir : ImageDir) (source : GoldenSource)
    (ref : Text) : Except RecordError Unit × Disk :=
  match refresh lib dir.tree with
  | none => (.error .load, dir.disk)
  | some images => match Catalog.get images ref with
    | none => (.error .notFound, dir.disk)
    | some img =>
      if img.policy = none then (.error .noPolicy, dir.disk)
      else
        let path := policyPath lib dir.tree img
        match source with
        | .clear => (writeGolden faults dir.disk path none none).map (Except.mapError .file) id
        | .fromVM vm => match fetchGolden server vm with
          | .error err => (.error err, dir.disk)
          | .ok (golden, fw) =>
            (writeGolden faults dir.disk path (some golden) (some fw)).map (Except.mapError .file) id

def policyIn (d : Disk) (path : Text) (version : String) : Option Policy :=
  (d.read path).bind fun data => (parsePolicy data).toOption.map fun p => { p with kubernetesVersion := version }

structure Matches (policy : Policy) (pcrs : List (Nat × Text)) : Prop where
  uki : (policy.pcr11.lookup phaseReady).map toLower = pcrs.lookup pcrUKI
  golden : ∀ i ∈ comparedPCRs .ready, ∃ got, pcrs.lookup i = some got ∧ (policy.expected i).map fst = some got

/-- The tables of the image's policy file, its members taken by name and the last one of each, have for the ready phase
and this Kubernetes version the PCRs 11 and 13 of the VM's recorded ready quote. -/
def Describes (lib : Golib) (server : Server) (dir : ImageDir) (ref : Text) (id version : String) : Prop :=
  ∀ img raw att q members p, dir.image lib ref = some img → img.policy = some raw → server.attestation id = .ok att →
    att.ready = some q → Json.parse raw = some (.obj members) → Policy.unmarshal (.obj (rest members)) = some p →
      (p.pcr11.lookup phaseReady).map toLower = q.pcrs.lookup pcrUKI ∧
      ∀ v, p.pcr13.lookup version = some v → q.pcrs.lookup pcrSysext = some (toLower v)

section picking
variable {pcrs : List (Nat × Text)} {i : Nat}

def picked (pcrs : List (Nat × Text)) : List (Nat × Text) :=
  goldenIndexes.filterMap fun i => (pcrs.lookup i).map fun v => (i, v)

theorem goldenFromPCRs_eq_foldl (pcrs : List (Nat × Text)) :
    goldenFromPCRs pcrs = (picked pcrs).foldl (fun m e => m.insert (e.1 : Int) e.2) ∅ := by
  rw [picked, foldl_filterMap, goldenFromPCRs]
  congr 1
  funext out i
  cases pcrs.lookup i <;> rfl

theorem length_goldenFromPCRs_le (pcrs : List (Nat × Text)) :
    (goldenFromPCRs pcrs).keys.length ≤ (picked pcrs).length := by
  have hsub : (goldenFromPCRs pcrs).keys ⊆ (picked pcrs).map fun e => (e.1 : Int) := by
    intro k hk
    obtain ⟨v, hv⟩ := ne_none_iff_exists'.1 (mem_keys_iff.1 hk)
    rw [goldenFromPCRs_eq_foldl] at hv
    rcases get_foldl_cases hv with h | ⟨e, he, hek, -⟩
    · exact absurd h get_empty_ne
    · exact List.mem_map.2 ⟨e, he, hek⟩
  have hle := (subperm_of_subset (goldenFromPCRs pcrs).keys_nodup hsub).length_le
  rwa [length_map] at hle

theorem get_goldenFromPCRs (h : (goldenFromPCRs pcrs).keys.length = goldenIndexes.length)
    (hi : i ∈ goldenIndexes) : ∃ v, pcrs.lookup i = some v ∧ (goldenFromPCRs pcrs).get i = some v := by
  have hlength : (picked pcrs).length = goldenIndexes.length :=
    le_antisymm (length_filterMap_le _ _) (h ▸ length_goldenFromPCRs_le pcrs)
  have hsome := filterMap_length_eq_length.1 hlength i hi
  rw [isSome_map] at hsome
  obtain ⟨v, hv⟩ := isSome_iff_exists.1 hsome
  refine ⟨v, hv, ?_⟩
  rw [goldenFromPCRs_eq_foldl]
  refine get_foldl_of_exists ⟨(i, v), mem_filterMap.2 ⟨i, hi, by rw [hv]; rfl⟩, rfl⟩ ?_
  intro e he hei
  obtain ⟨j, -, hj⟩ := mem_filterMap.1 he
  obtain ⟨w, hw, rfl⟩ := map_eq_some_iff.1 hj
  cases Int.ofNat.inj hei
  exact some.inj (hw.symm.trans hv)

end picking

section recording
variable {lib : Golib} {faults : Faults} {server : Server} {dir : ImageDir} {ref raw : Text} {id version : String}
  {d' : Disk} {img : Image}

theorem readFile_of_policySource {d : Node} {imageID imageVersion path : Text}
    (h : policySource lib d imageID imageVersion = some (path, raw)) : d.readFile [path] = some raw := by
  have hread : ∀ {name}, readJSON lib d [name] = some raw → d.readFile [name] = some raw := fun h =>
    (filter_eq_some_iff.1 h).1
  unfold policySource at h
  split at h
  · cases h
    exact hread ‹_›
  · repeat' split at h
    all_goals cases h
    exact hread ‹_›

theorem read_policyPath (himg : dir.image lib ref = some img) (hraw : img.policy = some raw) :
    dir.disk.read (policyPath lib dir.tree img) = some raw := by
  obtain ⟨images, himages, hget⟩ := bind_eq_some_iff.1 himg
  obtain ⟨entries, -, rfl⟩ := map_eq_some_iff.1 himages
  have hmem := (lib.sort.perm _ _).mem_iff.1 (mem_of_find?_eq_some hget)
  obtain ⟨e, -, he⟩ := mem_filterMap.1 hmem
  have hpolicy : img.policy = (policySource lib dir.tree img.id img.version).map snd := by
    unfold imageOf at he
    repeat' split at he
    all_goals cases he
    rfl
  rw [hpolicy] at hraw
  obtain ⟨⟨path, _⟩, hsource, rfl⟩ := map_eq_some_iff.1 hraw
  rw [policyPath, hsource, ← dir.same]
  exact readFile_of_policySource hsource

theorem fetchGolden_ok {golden : GoMap Int Text} {fw : Firmware} (h : fetchGolden server id = .ok (golden, fw)) :
    ∃ att q, server.attestation id = .ok att ∧ att.ready = some q ∧ golden = goldenFromPCRs q.pcrs ∧
      golden.keys.length = goldenIndexes.length := by
  unfold fetchGolden at h
  split at h
  · cases h
  rename_i att hatt
  split at h
  · cases h
  rename_i q hq
  dsimp only at h
  split at h
  · cases h
  rename_i hlength
  repeat' split at h
  all_goals cases h
  exact ⟨att, q, hatt, (filter_eq_some_iff.1 hq).1, rfl, not_not.1 hlength⟩

theorem runImageGolden_ok (h : runImageGolden lib faults server dir (.fromVM id) ref = (.ok (), d')) :
    ∃ img raw golden fw, dir.image lib ref = some img ∧ img.policy = some raw ∧
      fetchGolden server id = .ok (golden, fw) ∧
      writeGolden faults dir.disk (policyPath lib dir.tree img) (some golden) (some fw) = (.ok (), d') := by
  unfold runImageGolden at h
  split at h
  · cases h
  rename_i images himages
  split at h
  · cases h
  rename_i img hget
  have himg : dir.image lib ref = some img := bind_eq_some_iff.2 ⟨images, himages, hget⟩
  split at h
  · cases h
  rename_i hpolicy
  obtain ⟨raw, hraw⟩ := ne_none_iff_exists'.1 hpolicy
  dsimp only at h
  split at h
  · cases h
  rename_i golden fw hfetch
  obtain ⟨hok, hd⟩ := Prod.mk.inj h
  exact ⟨img, raw, golden, fw, himg, hraw, hfetch, Prod.ext (mapError_eq_ok_iff.1 hok) hd⟩

theorem toLower_encodeToString (b : Bytes) : toLower (encodeToString b) = encodeToString b :=
  (encodeToString_eq_toLower_iff (decodeString_encodeToString b)).2 rfl

theorem toLower_lookup_hexPCRs {values : PCRValues} {i : Nat} {v : Text} (h : (hexPCRs values).lookup i = some v) :
    toLower v = v := by
  obtain ⟨before, after, hsplit, -⟩ := lookup_eq_some_iff.1 h
  have hmem : (i, v) ∈ hexPCRs values := by
    rw [hsplit]
    simp
  obtain ⟨e, -, he⟩ := List.mem_map.1 hmem
  cases he
  exact toLower_encodeToString e.2

theorem matches_iff (version : String) {p : Policy} {pcrs : List (Nat × Text)} (hhex : ∃ values, pcrs = hexPCRs values)
    (hlength : (goldenFromPCRs pcrs).keys.length = goldenIndexes.length) (hv : p.validate = .ok ())
    (hvalues : ∃ values, p.golden = [(bank, values)] ∧ ∀ i, values.lookup i = (goldenFromPCRs pcrs).get i) :
    Matches { p with kubernetesVersion := version } pcrs ↔ (p.pcr11.lookup phaseReady).map toLower = pcrs.lookup pcrUKI ∧
      ∀ v, p.pcr13.lookup version = some v → pcrs.lookup pcrSysext = some (toLower v) := by
  obtain ⟨values, rfl⟩ := hhex
  constructor
  · rintro ⟨huki, hgolden⟩
    refine ⟨huki, fun v hlookup => ?_⟩
    obtain ⟨got, hgot, hexpected⟩ := hgolden pcrSysext (by decide)
    simp only [Policy.expected, hlookup, true_and, Policy.version_ne_empty hv hlookup, ne_eq, not_false_iff, if_true,
      map_some, some.injEq] at hexpected
    rw [hgot, hexpected]
  · rintro ⟨huki, hsysext⟩
    refine ⟨huki, fun i hi => ?_⟩
    obtain ⟨v, hv, hget⟩ := get_goldenFromPCRs hlength hi
    have hgolden : (Policy.goldenValue { p with kubernetesVersion := version } i) = some v := by
      obtain ⟨recorded, hbank, hlookup⟩ := hvalues
      have hrecorded : Policy.recorded { p with kubernetesVersion := version } i = some v := by
        rw [Policy.recorded, hbank, lookup_cons_self, getD_some, hlookup, hget]
      rw [Policy.goldenValue, hrecorded, map_some, toLower_lookup_hexPCRs hv]
    refine ⟨v, hv, ?_⟩
    unfold Policy.expected
    split
    · rename_i hindex
      cases htable : p.pcr13.lookup version with
      | none => simp [hgolden]
      | some w =>
        have hw := hsysext w htable
        rw [← hindex.1, hv] at hw
        simpa using hw.symm
    · simp [hgolden]

theorem Matches.verified {policy : Policy} {pcrs : List (Nat × Text)} (hm : Matches policy pcrs) {T : TPM2} {C : Crypto}
    {opts : Options} {now : Nat} {policyFor : String → Except PolicyError Policy} {v : Verifier} {req : QuoteRequest}
    {quote : Quote} (hpolicy : policyFor id = .ok policy) (hstage : req.stage = .ready) (hq : Examined T C req quote)
    (hnonce : v.nonces.Consumable now id req.nonce) (hpin : v.pinned id = some quote.akFingerprint)
    (hpcrs : ∀ i ∈ requiredPCRs .ready, (recordedPCRs req quote).lookup i = pcrs.lookup i) :
    Verified (verdict T C opts now policyFor v id req) := by
  obtain ⟨hpinned, henroll⟩ := (pin_iff v id req.stage quote.akFingerprint).2 (.inl hpin)
  refine verdict_verified_iff_checks.2 ⟨(Nonce.Store.consume_eq_true_iff ..).2 hnonce, by rw [hstage]; rfl, policy,
    hpolicy, quote, _, examine_eq_ok_iff.2 ⟨hq, rfl⟩, hpinned, judge_eq_ok_iff.2 ?_, henroll⟩
  rw [hstage]
  constructor
  · change toLower ((policy.pcr11.lookup phaseReady).getD []) = _
    rw [hpcrs pcrUKI (by decide), ← hm.uki]
    cases policy.pcr11.lookup phaseReady <;> rfl
  · intro i hi
    obtain ⟨got, hgot, hexpected⟩ := hm.golden i hi
    obtain ⟨e, he, rfl⟩ := map_eq_some_iff.1 hexpected
    unfold Agrees
    rw [hpcrs i (comparedPCRs_subset _ hi), hgot, he]
    rfl

/-- When the command recorded golden values of a VM, the file it leaves has every PCR of the VM's ready quote, and any
fresh quote of the same PCR values under the pinned key is verified, exactly when the policy file described that
quote. -/
theorem recorded_boot_accepted (lib : Golib) (faults : Faults) (server : Server) (dir : ImageDir) (ref : Text)
    (id version : String) (d' : Disk) (h : runImageGolden lib faults server dir (.fromVM id) ref = (.ok (), d')) :
    (∃ img att q policy, dir.image lib ref = some img ∧ server.attestation id = .ok att ∧ att.ready = some q ∧
      policyIn d' (policyPath lib dir.tree img) version = some policy ∧ Matches policy q.pcrs ∧
      ∀ (T : TPM2) (C : Crypto) (opts : Options) (now : Nat) (policyFor : String → Except PolicyError Policy)
        (v : Verifier) (req : QuoteRequest) (quote : Quote), policyFor id = .ok policy → req.stage = .ready →
        Examined T C req quote → v.nonces.Consumable now id req.nonce → v.pinned id = some quote.akFingerprint →
        (∀ i ∈ requiredPCRs .ready, (recordedPCRs req quote).lookup i = q.pcrs.lookup i) →
        Verified (verdict T C opts now policyFor v id req)) ↔ Describes lib server dir ref id version := by
  obtain ⟨img, raw, golden, fw, himg, hraw, hfetch, hwrite⟩ := runImageGolden_ok h
  obtain ⟨att, q, hatt, hready, rfl, hlength⟩ := fetchGolden_ok hfetch
  obtain ⟨raw', data, hread, hdata, hread'⟩ := writeGolden_ok hwrite
  cases (read_policyPath himg hraw).symm.trans hread
  obtain ⟨members, hparse⟩ := members_of_goldenFile hdata
  obtain ⟨r, p, hr, -, hp, h11, h13, hvalues, -⟩ := goldenFile_written hparse hdata
  have hpolicy : policyIn d' (policyPath lib dir.tree img) version = some { p with kubernetesVersion := version } := by
    rw [policyIn, hread', bind_some, hp]
    rfl
  have hiff := matches_iff version (server.hex id att q hatt hready) hlength
    (parsePolicy_eq_ok_iff.1 hp).choose_spec.2.2 hvalues
  constructor
  · rintro ⟨img', att', q', policy, himg', hatt', hready', hpolicy', hmatches, -⟩
    cases himg.symm.trans himg'
    cases hatt.symm.trans hatt'
    cases hready.symm.trans hready'
    cases hpolicy.symm.trans hpolicy'
    intro img' raw' att' q' members' r' himg' hraw' hatt' hready' hparse' hr'
    cases himg.symm.trans himg'
    cases hraw.symm.trans hraw'
    cases hatt.symm.trans hatt'
    cases hready.symm.trans hready'
    cases hparse.symm.trans hparse'
    cases hr.symm.trans hr'
    rw [← h11, ← h13]
    exact hiff.1 hmatches
  · intro hd
    have hmatches := hiff.2 (by
      rw [h11, h13]
      exact hd img raw att q members r himg hraw hatt hready hparse hr)
    refine ⟨img, att, q, _, himg, hatt, hready, hpolicy, hmatches, ?_⟩
    intro T C opts now policyFor v req quote hpolicy hstage hq hnonce hpin hpcrs
    exact hmatches.verified hpolicy hstage hq hnonce hpin hpcrs

end recording

def ImageDir.ofFiles (files : List (Text × Text)) : ImageDir where
  tree := .dir (files.map fun f => (f.1, .file f.2))
  disk :=
    { entry := fun name => files.findIdx? (·.1 == name)
      content := fun i => (files[i]?.map snd).getD []
      next := files.length
      used := fun _ _ h => (findIdx?_eq_some_iff_findIdx_eq.1 h).1 }
  same name := by
    simp only [Node.readFile, Node.stat, Node.follow, Disk.read]
    induction files with
    | nil => rfl
    | cons f files ih =>
      rw [map_cons, lookup_cons, findIdx?_cons]
      cases hname : f.1 == name with
      | true =>
        have hname := eq_of_beq hname
        simp [hname, Node.follow]
      | false =>
        have hne : (name == f.1) = false := beq_false_of_ne (ne_of_beq_false hname).symm
        simpa [hne, Option.map_map, Function.comp_def] using ih

namespace Sample

def readyQuote : Attest.Sample.SampleQuote where
  nonce := 0x25809a8eaaee24a1c3d2297f142748614a0a10d92cb72355d597123dbb17da20
  x := 0xf892b6556d8f9514c1ec392e9f35afc833210d7c8a7fb4157ed50e84711896ac
  y := 0xb3c1e101bd2df40881b15a5a877479ac921eb6c78564e9d0be0f9983faee4ac5
  akDigest := 0x6b741b8c6ca8b4b3e95b52dad38017d537c8e81a10c5a3b94b210f1a04e2ccda
  attestDigest := 0xb2a336a8b56984ad9af108a4220c83443c692d2ea01d8bbf345df9ecc4fa4746
  r := 0xc8c4ef4fcdc2b5ebe84df7d1e7f4e19b23b70d604459da1b265983a3a23415df
  s := 0x64561f8e089e0094432c912fbd35c2b97ed3e44590542a53c52687a64999d22a

open Attest.Sample (bytesOf)

def readyDigest : Nat := 0x9d1d9462c790e6d89956c99fbc7294c69b8b11b64e28709ab2de4e50e5957728

def readyAttest : Bytes := readyQuote.attest.take 101 ++ bytesOf 12 0x00000001000b03ff28000020 ++ bytesOf 32 readyDigest

def readyValues : PCRValues :=
  (requiredPCRs .ready).map fun i => (i, replicate 32 (if i = pcrUKI then 0xbb else UInt8.ofNat i))

def readySum (h : Hash) (b : Bytes) : Bytes :=
  match h, [(readyValues.flatMap snd, readyDigest), (readyAttest, readyQuote.attestDigest),
      (readyQuote.akPub, readyQuote.akDigest)].lookup b with
  | .sha256, some digest => bytesOf 32 digest
  | h, _ => replicate h.size 0

def readyCrypto : Crypto :=
  { Attest.Sample.crypto with
    sum := readySum
    sum_length := fun h b => by
      unfold readySum
      split
      · rfl
      · simp
    ecdsaVerify := fun key digest r s => key == readyQuote.key && digest == bytesOf 32 readyQuote.attestDigest &&
      r == readyQuote.r && s == readyQuote.s }

def decodes {α : Type} (encoded : Bytes) (value : α) (b : Bytes) : Except String α :=
  if b = encoded then .ok value else .error "unexpected EOF"

def readyTPM2 : TPM2 :=
  { Attest.Sample.tpm2 with
    unmarshalAttest := decodes readyAttest { Attest.Sample.attestOf readyQuote with
      attested := .ok ⟨[⟨0x000b, [0xff, 0x28, 0x00]⟩], bytesOf 32 readyDigest⟩ }
    unmarshalSignature := decodes readyQuote.signature (Attest.Sample.signatureOf readyQuote)
    unmarshalPublic := decodes readyQuote.akPub (Attest.Sample.publicOf readyQuote) }

def readyRequest : QuoteRequest :=
  { Attest.Sample.request readyQuote .ready with
    quote := readyAttest
    pcrs := [(bank, (hexPCRs readyValues).map fun e => (toString e.1, e.2))] }

def pinning : Verifier where
  nonces := Nonce.Store.issue {} 1000 "vm1" (Attest.Sample.nonceOf readyQuote)
  vms _ := some { ak := encodeToString (bytesOf 32 readyQuote.akDigest) }

def server : Server where
  attestation _ := .ok { ready := some { verified := true, message := "", time := 0, pcrs := hexPCRs readyValues } }
  firmware := .ok (some firmware)
  hex id att q hatt hq := by
    cases hatt
    cases hq
    exact ⟨readyValues, rfl⟩

def directory (uki : Char) : ImageDir := .ofFiles
  [("base_1.efi".toList, []), ("base_1.raw".toList, []),
    (policyFile, "\x7b\"pcr11\": \x7b\"enter-initrd\": \"".toList ++ digest 'a' ++
      "\", \"enter-initrd:leave-initrd:sysinit:ready\": \"".toList ++ digest uki ++ "\"\x7d\x7d".toList)]

def record (uki : Char) : Except RecordError Unit × Disk :=
  runImageGolden golib {} server (directory uki) (.fromVM "vm1") "base".toList

def resubmit (policy : Policy) : Except String QuoteResult :=
  verdict readyTPM2 readyCrypto {} 2000 (fun _ => .ok policy) pinning "vm1" readyRequest

def describing (raw : Text) : Bool :=
  match Json.parse raw with
  | some (.obj members) => (Policy.unmarshal (.obj (rest members))).all fun p =>
      decide ((p.pcr11.lookup phaseReady).map toLower = (hexPCRs readyValues).lookup pcrUKI ∧
        p.pcr13.lookup "1.31.0" = none)
  | _ => false

def pinned (quote : Tpmquote.Quote) : Bool :=
  decide (pinning.pinned "vm1" = some quote.akFingerprint ∧ ∀ i ∈ requiredPCRs .ready,
    (recordedPCRs readyRequest quote).lookup i = (hexPCRs readyValues).lookup i)

end Sample
open Sample

theorem recorded_boot_accepted_sample :
    ∃ img policy, (directory 'b').image golib "base".toList = some img ∧
      policyIn (record 'b').2 (policyPath golib (directory 'b').tree img) "1.31.0" =
        some policy ∧ Verified (resubmit policy) := by
  have hok : (record 'b').1 = .ok () := by decide +kernel
  have hrun : record 'b' = (.ok (), (record 'b').2) := Prod.ext hok (by dsimp only)
  have hdescribes : Describes golib server (directory 'b') "base".toList "vm1" "1.31.0" := by
    intro img raw att q members p himg hraw hatt hready hparse hp
    cases hatt
    cases hready
    have hcheck : (((directory 'b').image golib "base".toList).bind Image.policy).any
        describing = true := by decide +kernel
    rw [himg, bind_some, hraw, any_some, describing, hparse] at hcheck
    simp only [hp, all_some, decide_eq_true_eq] at hcheck
    exact ⟨hcheck.1, fun v hv => by cases hcheck.2.symm.trans hv⟩
  obtain ⟨img, att, q, policy, himg, hatt, hready, hpolicy, -, hverified⟩ :=
    (recorded_boot_accepted golib {} server (directory 'b') "base".toList "vm1" "1.31.0" _
      hrun).2 hdescribes
  cases hatt
  cases hready
  have hnonce : pinning.nonces.Consumable 2000 "vm1" readyRequest.nonce :=
    (Nonce.Store.consume_eq_true_iff ..).1 (by decide +kernel)
  have hcheck : (examine readyTPM2 readyCrypto readyRequest { time := 0 }).toOption.any
      (fun r => pinned r.1) = true := by decide +kernel
  cases hexamine : examine readyTPM2 readyCrypto readyRequest { time := 0 } with
  | ok r =>
    rw [hexamine] at hcheck
    obtain ⟨hpin, hpcrs⟩ := of_decide_eq_true hcheck
    exact ⟨img, policy, himg, hpolicy, hverified _ _ {} 2000 _ _ _ r.1 rfl rfl (examine_eq_ok_iff.1 hexamine).1
      hnonce hpin hpcrs⟩
  | error res =>
    rw [hexamine] at hcheck
    cases hcheck

theorem golden_of_another_image : (record 'c').1 = .ok () ∧
      ∃ img policy, (directory 'c').image golib "base".toList = some img ∧
        policyIn (record 'c').2 (policyPath golib (directory 'c').tree img) "1.31.0" =
          some policy ∧ ¬ Matches policy (hexPCRs readyValues) ∧ ¬ Verified (resubmit policy) := by
  have hcheck : (((directory 'c').image golib "base".toList).bind fun img =>
      (policyIn (record 'c').2 (policyPath golib (directory 'c').tree img) "1.31.0").map
        fun policy => decide ((policy.pcr11.lookup phaseReady).map toLower ≠
          (hexPCRs readyValues).lookup pcrUKI) && !accepted (resubmit policy)) = some true := by
    decide +kernel
  obtain ⟨img, himg, hcheck⟩ := bind_eq_some_iff.1 hcheck
  obtain ⟨policy, hpolicy, hcheck⟩ := map_eq_some_iff.1 hcheck
  rw [Bool.and_eq_true, decide_eq_true_eq, Bool.not_eq_true'] at hcheck
  refine ⟨by decide +kernel, img, policy, himg, hpolicy, fun hm => hcheck.1 hm.uki, ?_⟩
  rw [verified_iff_accepted, hcheck.2]
  exact Bool.false_ne_true

end VmManager.Images
