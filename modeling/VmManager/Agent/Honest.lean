import VmManager.Agent.Quote

/-! An honest guest is accepted. The two halves of the attestation were written apart: here the request
the agent builds with a TPM that tells the truth meets everything the verifier asks for. -/
namespace VmManager.Agent
open Encoding Tpmquote Attest Interleaving List Option Nat
open Interleaving.Sequential (Meets)
variable {i rounds : Nat} {remaining : List Nat} {v : Bytes}

theorem mem_selectedIndexes {sel : Bytes} :
    i ∈ selectedIndexes sel ↔ ∃ b, sel[i / 8]? = some b ∧ b.toNat.testBit (i % 8) = true := by
  unfold selectedIndexes
  simp only [mem_flatMap, mem_filterMap, mem_range, Prod.exists, mem_zipIdx_iff_getElem?]
  constructor
  · rintro ⟨b, k, hb, bit, hbit, hi⟩
    split at hi <;> cases hi
    have hk : (k * 8 + bit) / 8 = k := by omega
    have hr : (k * 8 + bit) % 8 = bit := by omega
    rw [hk, hr]
    exact ⟨b, hb, ‹_›⟩
  · rintro ⟨b, hb, hbit⟩
    refine ⟨b, i / 8, hb, i % 8, by omega, ?_⟩
    rw [if_pos hbit]
    congr 1
    omega

theorem mem_selectedIndexes_pcClientCompatible {pcrs : List Nat} :
    i ∈ selectedIndexes (pcClientCompatible pcrs) ↔ i ∈ pcrs := by
  have hbit : ∀ k, (UInt8.ofNat (ofBits fun bit : Fin 8 =>
      decide (k * 8 + bit.val ∈ pcrs))).toNat.testBit (i % 8) = decide (k * 8 + i % 8 ∈ pcrs) := by
    intro k
    have hlt := ofBits_lt_two_pow fun bit : Fin 8 => decide (k * 8 + bit.val ∈ pcrs)
    rw [UInt8.toNat_ofNat_of_lt' hlt, testBit_ofBits_lt _ _ (mod_lt i (by decide))]
  have hi : i / 8 * 8 + i % 8 = i := by omega
  have hlen : i ∈ pcrs → i / 8 < max 3 (pcrs.max?.getD 0 / 8 + 1) := by
    intro h
    have hle : i ≤ pcrs.max?.getD 0 := le_max?_getD_of_mem h
    omega
  rw [mem_selectedIndexes]
  unfold pcClientCompatible
  simp only [getElem?_map, map_eq_some_iff, List.getElem?_eq_some_iff, length_range, getElem_range]
  constructor
  · rintro ⟨_, ⟨k, ⟨-, rfl⟩, rfl⟩, hb⟩
    rwa [hbit, hi, decide_eq_true_eq] at hb
  · intro h
    exact ⟨_, ⟨_, ⟨hlen h, rfl⟩, rfl⟩, by rw [hbit, hi, decide_eq_true_eq]; exact h⟩

theorem mem_selected_selection {pcrs : List Nat} {alg : UInt16} :
    i ∈ selected (selection alg pcrs) alg ↔ i ∈ pcrs := by
  simp [selected, selection, mem_selectedIndexes_pcClientCompatible]

section honest
variable {σ : Type}

structure ReadsFrom (content : Nat → Bytes) (sel : List PCRSelection) (rsp : PCRReadResponse) :
    Prop where
  some : selected rsp.selectionOut bankAlg ≠ []
  asked : selected rsp.selectionOut bankAlg ⊆ selected sel bankAlg
  digests : rsp.digests = (selected rsp.selectionOut bankAlg).map content

structure QuotesFrom (G : GoTPM) (C : Crypto) (content : Nat → Bytes) (pub : Public) (data : Bytes)
    (sel : List PCRSelection) (rsp : QuoteResponse) : Prop where
  length : 4 ≤ rsp.quoted.length
  magic : bigEndian (rsp.quoted.take 4) = tpmGeneratedValue
  attest : ∃ att, G.unmarshalAttest rsp.quoted = .ok att ∧ att.type = attestQuote ∧ att.extraData = data ∧
    att.attested = .ok ⟨sel, C.sum .sha256 ((selected sel bankAlg).flatMap content)⟩
  inverse : G.unmarshalSignature (G.marshalSignature rsp.signature) = .ok rsp.signature
  scheme : rsp.signature.sigAlg = algECDSA
  signed : ∃ key sig, G.pub pub = .ok (.ecdsa key) ∧ rsp.signature.ecdsa = .ok sig ∧ sig.hash = algSHA256 ∧
    C.ecdsaVerify key (C.sum .sha256 rsp.quoted) (bigEndian sig.signatureR)
      (bigEndian sig.signatureS) = true

/-- The TPM tells the truth in its states `Ready`, in which it has the key and the PCRs hold `content`:
no command the agent gives leaves them, and what is answered is right. -/
structure Honest (G : GoTPM) (C : Crypto) (tpm : TPM σ) (ak : AK) (content : Nat → Bytes)
    (Ready : σ → Prop) : Prop where
  inverse : G.unmarshalPublic (G.marshal ak.pub.toPublic) = .ok ak.pub.toPublic
  size : ∀ i, (content i).length = Hash.sha256.size
  readPublic : ∀ h s, Ready s → Ready (tpm.readPublic h s).2
  createPrimary : ∀ s, Ready s → Ready (tpm.createPrimary .endorsement .rsaEK s).2
  flushContext : ∀ h s, Ready s → Ready (tpm.flushContext h s).2
  pcrRead : ∀ pcrs s, Ready s → pcrs ≠ [] → Ready (tpm.pcrRead (selection bankAlg pcrs) s).2 ∧
    ∀ rsp, (tpm.pcrRead (selection bankAlg pcrs) s).1 = .ok rsp → ReadsFrom content (selection bankAlg pcrs) rsp
  quote : ∀ data pcrs s, Ready s → Ready (tpm.quote ak.object data (selection bankAlg pcrs) s).2 ∧
    ∀ rsp, (tpm.quote ak.object data (selection bankAlg pcrs) s).1 = .ok rsp →
      QuotesFrom G C content ak.pub.toPublic data (selection bankAlg pcrs) rsp

/-- No command of the agent fails from the states `Ready` on, and neither does reading a log. -/
structure Answers (host : Host σ) (tpm : TPM σ) (ak : AK) (Ready : σ → Prop) (data : Bytes)
    (pcrs : List Nat) : Prop where
  readPublic : ∀ s, Ready s → ∀ err, (tpm.readPublic ekHandle s).1 = .error err → err.handle = true
  createPrimary : ∀ s, Ready s → ∃ r, (tpm.createPrimary .endorsement .rsaEK s).1 = .ok r
  pcrRead : ∀ remaining s, Ready s → remaining ≠ [] → remaining ⊆ pcrs →
    ∃ rsp, (tpm.pcrRead (selection bankAlg remaining) s).1 = .ok rsp
  quote : ∀ s, Ready s → ∃ rsp, (tpm.quote ak.object data (selection bankAlg pcrs) s).1 = .ok rsp
  logs : ∀ path, ∃ b, readOptional host path = .ok b

variable {G : GoTPM} {C : Crypto} {host : Host σ} {tpm : TPM σ} {ak : AK} {content : Nat → Bytes}
  {Ready : σ → Prop} {data : Bytes} {pcrs : List Nat}

theorem ekPublic_meets (h : Honest G C tpm ak content Ready) :
    Meets Ready (ekPublic tpm) (fun _ => True) fun _ => ¬ Answers host tpm ak Ready data pcrs := by
  apply Meets.tryCatch (F := fun err => Answers host tpm ak Ready data pcrs → err.handle = true)
  · apply Meets.bind (Q := fun _ => True)
    · apply Meets.command (h.readPublic ekHandle)
      · exact fun _ _ _ _ => trivial
      · exact fun s err hs herr ha => ha.readPublic s hs err herr
    · exact fun _ _ => Meets.pure trivial
  · intro err hhandle
    by_cases hh : err.handle = true
    · have hcond : (!err.handle) = false := by simp [hh]
      simp only [hcond, Bool.false_eq_true, if_false]
      apply Meets.bind (Q := fun _ => True)
      · apply Meets.mapError
        apply Meets.command h.createPrimary
        · exact fun _ _ _ _ => trivial
        · intro s err hs herr ha
          obtain ⟨r, hok⟩ := ha.createPrimary s hs
          rw [herr] at hok
          cases hok
      · intro ek _
        apply Meets.deferring (Meets.pure trivial)
        apply Meets.command (h.flushContext ek.1.handle)
        · exact fun _ _ _ _ => trivial
        · exact fun _ _ _ _ => trivial
    · have hcond : (!err.handle) = true := by simp [hh]
      simp only [hcond, if_true]
      apply Meets.bind (Q := fun _ => False)
      · exact Meets.throw fun ha => hh (hhandle ha)
      · exact fun _ hf => hf.elim

theorem get_round (got : List Nat) (values : GoMap Nat Bytes) (i : Nat) :
    ((got.zip (got.map content)).foldl (fun m e => m.insert e.1 e.2) values).get i =
      if i ∈ got then some (content i) else values.get i := by
  rw [← GoMap.get_foldl_insert]
  induction got generalizing values with
  | nil => rfl
  | cons j got ih => exact ih _

theorem length_without_lt {values : GoMap Nat Bytes} (hi : i ∈ remaining) (hv : values.get i = some v) :
    (without remaining values).length < remaining.length := by
  unfold without
  rw [length_filter_lt_length_iff_exists]
  exact ⟨i, hi, by simp [hv]⟩

theorem readRounds_meets (h : Honest G C tpm ak content Ready)
    {values : GoMap Nat Bytes} (hrounds : remaining.length ≤ rounds)
    (hsub : remaining ⊆ pcrs) (hright : ∀ i v, values.get i = some v → v = content i)
    (hvalues : ∀ i ∈ pcrs, i ∈ remaining ∨ values.get i = some (content i)) :
    Meets Ready (readRounds tpm bankAlg rounds values remaining)
      (fun values => ∀ i ∈ pcrs, values.get i = some (content i))
      fun _ => ¬ Answers host tpm ak Ready data pcrs := by
  induction rounds generalizing values remaining with
  | zero =>
    have hnil : remaining = [] := length_eq_zero_iff.1 (by omega)
    subst hnil
    exact .pure fun i hi => (hvalues i hi).resolve_left (by simp)
  | succ rounds ih =>
    cases remaining with
    | nil => exact .pure fun i hi => (hvalues i hi).resolve_left (by simp)
    | cons j rest =>
      have hask : j :: rest ≠ [] := cons_ne_nil j rest
      apply Meets.bind (Q := ReadsFrom content (selection bankAlg (j :: rest)))
      · apply Meets.command
        · exact fun s hs => (h.pcrRead _ s hs hask).1
        · exact fun s rsp hs hok => (h.pcrRead _ s hs hask).2 rsp hok
        · intro s err hs herr ha
          obtain ⟨rsp, hok⟩ := ha.pcrRead _ s hs hask hsub
          rw [herr] at hok
          cases hok
      · intro rsp hrsp
        have hlen : ¬ ((selected rsp.selectionOut bankAlg).length = 0 ∨
            (selected rsp.selectionOut bankAlg).length ≠ rsp.digests.length) := by
          rw [hrsp.digests, length_map, length_eq_zero_iff]
          simp [hrsp.some]
        simp only [if_neg hlen]
        rw [hrsp.digests]
        apply ih
        · -- one of the PCRs that were read is not asked for again
          obtain ⟨i, hi⟩ := exists_mem_of_ne_nil _ hrsp.some
          have hmem : i ∈ j :: rest := mem_selected_selection.1 (hrsp.asked hi)
          apply le_of_lt_succ
          refine (length_without_lt (v := content i) hmem ?_).trans_le hrounds
          rw [get_round, if_pos hi]
        · exact fun i hi => hsub (mem_filter.1 hi).1
        · intro i v hv
          rw [get_round] at hv
          split at hv
          · exact (some.inj hv).symm
          · exact hright i v hv
        · intro i hi
          rw [get_round]
          by_cases hgot : i ∈ selected rsp.selectionOut bankAlg
          · simp [hgot]
          · rcases hvalues i hi with hrem | hval
            · cases hv : values.get i with
              | none => exact .inl (mem_filter.2 ⟨hrem, by simp [get_round, hgot, hv]⟩)
              | some v => simp [hgot, hright i v hv]
            · simp [hgot, hval]

/-! What the two halves have to agree on: the attestation key and the values sent. -/

theorem matchesAKTemplate_ok {pub : Area} (h : matchesAKTemplate G pub = .ok ()) :
    checkAK pub.toPublic = .ok () ∧ pub.type = algECC := by
  unfold matchesAKTemplate at h
  simp only [bind_eq_ok_iff, mapError_eq_ok_iff, require_eq_ok_iff] at h
  obtain ⟨_, htype, _, -, _, ⟨hattr, -⟩, ecc, hecc, _, hcurve, _, hscheme, -⟩ := h
  refine ⟨?_, htype⟩
  unfold checkAK checkAlgorithm
  simp only [bind_eq_ok_iff, require_eq_ok_iff, hattr, htype]
  refine ⟨(), by decide, (), by decide, ?_⟩
  rw [if_pos (by decide)]
  simp only [bind_eq_ok_iff, mapError_eq_ok_iff, require_eq_ok_iff, hecc]
  exact ⟨ecc, rfl, (), hcurve, hscheme⟩

theorem readAK_ok {s s' : σ} (h : (readAK G tpm).exec s = some (.ok ak, s')) :
    matchesAKTemplate G ak.pub = .ok () ∧ ak.publicBytes = G.marshal ak.pub.toPublic := by
  obtain ⟨rsp, s₁, -, h⟩ := Sequential.exec_bind_ok h
  obtain ⟨pub, s₂, -, h⟩ := Sequential.exec_bind_ok h
  obtain ⟨u, s₃, hmatch, h⟩ := Sequential.exec_bind_ok h
  cases h
  have hmatch := congrArg Prod.fst (some.inj hmatch)
  exact ⟨mapError_eq_ok_iff.1 hmatch, rfl⟩

theorem ensureAK_ok {s s' : σ} (h : (ensureAK G tpm).exec s = some (.ok ak, s')) :
    matchesAKTemplate G ak.pub = .ok () ∧ ak.publicBytes = G.marshal ak.pub.toPublic := by
  unfold ensureAK at h
  obtain ⟨⟨r, s₁⟩, hr, h⟩ := bind_eq_some_iff.1 h
  cases r with
  | ok a =>
    cases h
    exact readAK_ok hr
  | error err =>
    by_cases hh : err.handle = true
    · simp only [hh, Bool.not_true, Bool.false_eq_true, if_false] at h
      obtain ⟨u, s₂, -, h⟩ := Sequential.exec_bind_ok h
      exact readAK_ok h
    · simp only [hh, Bool.not_false, if_true] at h
      cases h

theorem toString_inj {a b : Nat} (h : toString a = toString b) : a = b := by
  have hdigits : toDigits 10 a = toDigits 10 b := String.ofList_injective h
  have hvalue := congrArg (fun l => ofDigitChars 10 l 0) hdigits
  simpa only [ofDigitChars_toDigits (b := 10) (by decide) (by decide)] using hvalue

theorem lookup_hexPCRs {values : GoMap Nat Bytes} (h : values.get i = some v) :
    (hexPCRs values).lookup (toString i) = some (encodeToString v) := by
  have hmem := GoMap.get_eq_some_iff.1 h
  have hkeys := values.nodupKeys
  unfold hexPCRs
  generalize values.entries = l at hmem hkeys
  induction l with
  | nil => cases hmem
  | cons e l ih =>
    rw [map_cons, lookup_cons]
    rcases mem_cons.1 hmem with rfl | hmem
    · simp
    · have hne : i ≠ e.1 := by
        rintro rfl
        exact (nodupKeys_cons.1 hkeys).1 (mem_keys_of_mem (s := ⟨e.1, v⟩) hmem)
      have hbeq : (toString i == toString e.1) = false := beq_false_of_ne fun heq => hne (toString_inj heq)
      rw [hbeq]
      exact ih hmem (nodupKeys_cons.1 hkeys).2

def quoteOf (G : GoTPM) (C : Crypto) (ak : AK) (content : Nat → Bytes) (data : Bytes)
    (pcrs : List Nat) (rsp : QuoteResponse) : Tpmquote.Quote where
  attest := rsp.quoted
  signature := rsp.signature
  pub := ak.pub.toPublic
  akFingerprint := fingerprint G.toTPM2 C ak.pub.toPublic
  extraData := data
  bank := Attest.bank
  pcrs := selectedIndexes (pcClientCompatible pcrs)
  pcrDigest := C.sum .sha256 ((selectedIndexes (pcClientCompatible pcrs)).flatMap content)
  hash := .sha256

theorem selected_selection (pcrs : List Nat) (alg : UInt16) :
    selected (selection alg pcrs) alg = selectedIndexes (pcClientCompatible pcrs) := by
  simp [selected, selection]

theorem decodeSelection_selection (hhash : G.hash algSHA256 = some .sha256) (hne : pcrs ≠ []) :
    decodeSelection G.toTPM2 (selection bankAlg pcrs) =
      .ok (Attest.bank, selectedIndexes (pcClientCompatible pcrs)) := by
  obtain ⟨i, hi⟩ := exists_mem_of_ne_nil _ hne
  have hidx : selectedIndexes (pcClientCompatible pcrs) ≠ [] :=
    ne_nil_of_mem (mem_selectedIndexes_pcClientCompatible.2 hi)
  have hbank : G.hash bankAlg = some .sha256 := hhash
  simp [decodeSelection, selection, decodeSelections, hidx, hbank, bankName, Attest.bank]

theorem parse_quoted (hhash : G.hash algSHA256 = some .sha256) (havail : C.available .sha256 = true)
    (hne : pcrs ≠ []) (hmatch : matchesAKTemplate G ak.pub = .ok ())
    (hinv : G.unmarshalPublic (G.marshal ak.pub.toPublic) = .ok ak.pub.toPublic) {rsp : QuoteResponse}
    (h : QuotesFrom G C content ak.pub.toPublic data (selection bankAlg pcrs) rsp) :
    parse G.toTPM2 C rsp.quoted (G.marshalSignature rsp.signature) (G.marshal ak.pub.toPublic) =
      .ok (quoteOf G C ak content data pcrs rsp) := by
  obtain ⟨att, hatt, htype, hdata, hinfo⟩ := h.attest
  obtain ⟨key, sig, hkey, hsig, hsighash, -⟩ := h.signed
  obtain ⟨hcheck, hecc⟩ := matchesAKTemplate_ok hmatch
  have hpub : parsePublic G.toTPM2 (G.marshal ak.pub.toPublic) = .ok ak.pub.toPublic := by
    rw [parsePublic, hinv]
  have hhash' : signatureHash G.toTPM2 C ak.pub.toPublic rsp.signature = .ok .sha256 := by
    unfold signatureHash signatureAlg
    simp [h.scheme, hecc, hsig, hsighash, hhash, havail, bind, Except.bind, pure, Except.pure]
  unfold parse
  simp only [bind_eq_ok_iff, require_eq_ok_iff, mapError_eq_ok_iff]
  refine ⟨(), h.length, (), h.magic, att, hatt, (), htype, _, hinfo, _,
    decodeSelection_selection hhash hne, _, h.inverse, _, hpub, (), hcheck, _, hhash', ?_⟩
  rw [hdata, selected_selection]
  rfl

theorem verifySignature_quoted {rsp : QuoteResponse} {sel : List PCRSelection}
    (h : QuotesFrom G C content ak.pub.toPublic data sel rsp) :
    verifySignature G.toTPM2 C (quoteOf G C ak content data pcrs rsp) = .ok () := by
  obtain ⟨key, sig, hkey, hsig, -, hverify⟩ := h.signed
  simp [verifySignature, quoteOf, hkey, h.scheme, hsig, hverify]

theorem stageSelection_ok {stage : Stage} (h : stageSelection stage = .ok pcrs) :
    selectedIndexes (pcClientCompatible pcrs) = pcrs ∧ pcrs.insertionSort (· ≤ ·) = pcrs ∧
      pcrs ≠ [] ∧ (∀ i ∈ requiredPCRs stage, i ∈ pcrs) ∧ (stage = .initrd ∨ stage = .ready) := by
  cases stage with
  | initrd =>
    cases h
    decide +kernel
  | ready =>
    cases h
    decide +kernel
  | unknown text => cases h

/-- The values match the policy of the VM at a stage. A PCR without a golden value matches where the
verifier learns it, and so does PCR 13 everywhere. -/
structure Matches (opts : Attest.Options) (policy : Policy) (stage : Stage) (content : Nat → Bytes) :
    Prop where
  uki : (policy.pcr11.lookup (phaseFor stage)).bind decodeString = some (content pcrUKI)
  firmware : ∀ i ∈ goldenFirmwarePCRs, (∃ text, policy.recorded i = some text ∧ decodeString text = some (content i)) ∨
      (policy.recorded i = none ∧ opts.learnGolden = true)
  sysext : stage = .ready → (∃ text, policy.pcr13.lookup policy.kubernetesVersion = some text ∧
      decodeString text = some (content pcrSysext)) ∨
    (policy.pcr13.lookup policy.kubernetesVersion = none ∧ ((∃ text, policy.recorded pcrSysext = some text ∧
        decodeString text = some (content pcrSysext)) ∨ policy.recorded pcrSysext = none))

def requestOf (G : GoTPM) (ak : AK) (stage : Stage) (nonce : Text) (values : GoMap Nat Bytes)
    (rsp : QuoteResponse) : QuoteRequest where
  stage := stage
  nonce := nonce
  akPub := G.marshal ak.pub.toPublic
  quote := rsp.quoted
  signature := G.marshalSignature rsp.signature
  pcrs := [(Attest.bank, hexPCRs values)]

section request
variable {stage : Stage} {nonce : Text} {values : GoMap Nat Bytes} {rsp : QuoteResponse}

theorem sent_requestOf (hvalues : ∀ i ∈ pcrs, values.get i = some (content i))
    (hi : i ∈ pcrs) : sent (requestOf G ak stage nonce values rsp) i = some (content i) := by
  have hbank : [(Attest.bank, hexPCRs values)].lookup Attest.bank = some (hexPCRs values) := lookup_cons_self
  unfold sent requestOf
  rw [hbank, getD_some, lookup_hexPCRs (hvalues i hi), bind_some, decodeString_encodeToString]

theorem requestOf_examined (hhash : G.hash algSHA256 = some .sha256) (havail : C.available .sha256 = true)
    (hsel : stageSelection stage = .ok pcrs) (hnonce : decodeString nonce = some data) (hdata : data ≠ [])
    (hmatch : matchesAKTemplate G ak.pub = .ok ())
    (hinv : G.unmarshalPublic (G.marshal ak.pub.toPublic) = .ok ak.pub.toPublic)
    (hsize : ∀ i, (content i).length = Hash.sha256.size) (hvalues : ∀ i ∈ pcrs, values.get i = some (content i))
    (h : QuotesFrom G C content ak.pub.toPublic data (selection bankAlg pcrs) rsp) :
    Examined G.toTPM2 C (requestOf G ak stage nonce values rsp)
      (quoteOf G C ak content data pcrs rsp) := by
  obtain ⟨hidx, hsorted, hne, hneeded, -⟩ := stageSelection_ok hsel
  have hpcrs : (quoteOf G C ak content data pcrs rsp).pcrs = pcrs := hidx
  refine ⟨parse_quoted hhash havail hne hmatch hinv h, verifySignature_quoted h, ⟨hnonce, hdata⟩, rfl, ?_, ?_, ?_⟩
  · rw [hpcrs]
    exact fun i hi => ⟨content i, sent_requestOf hvalues hi, hsize i⟩
  · rw [hpcrs, hsorted]
    show C.sum .sha256 _ = C.sum .sha256 _
    rw [hidx]
    congr 1
    apply flatMap_congr
    intro i hi
    rw [sent_requestOf hvalues hi, getD_some]
  · rw [hpcrs]
    exact hneeded

structure Enrolling (G : GoTPM) (C : Crypto) (opts : Attest.Options) (now : Nat)
    (policyFor : String → Except PolicyError Policy) (v : Verifier) (vmID : String) (stage : Stage)
    (nonce : Text) (ak : AK) (content : Nat → Bytes) : Prop where
  issued : ∃ raw : Bytes, raw.length = 32 ∧ nonce = encodeToString raw
  valid : v.nonces.Consumable now vmID nonce
  policy : ∃ policy, policyFor vmID = .ok policy ∧ policy.validate = .ok () ∧ Matches opts policy stage content
  pin : v.pinned vmID = some (fingerprint G.toTPM2 C ak.pub.toPublic) ∨ (v.pinned vmID = none ∧ stage = .initrd)

theorem requestOf_verified {opts : Attest.Options} {now : Nat} {policyFor : String → Except PolicyError Policy}
    {v : Verifier} {vmID : String} (hsel : stageSelection stage = .ok pcrs)
    (henrolling : Enrolling G C opts now policyFor v vmID stage nonce ak content)
    (hvalues : ∀ i ∈ pcrs, values.get i = some (content i))
    (he : Examined G.toTPM2 C (requestOf G ak stage nonce values rsp) (quoteOf G C ak content data pcrs rsp)) :
    Verified (verdict G.toTPM2 C opts now policyFor v vmID
      (requestOf G ak stage nonce values rsp)) := by
  obtain ⟨policy, hpolicy, hval, hmatches⟩ := henrolling.policy
  obtain ⟨-, -, -, hneeded, hstage⟩ := stageSelection_ok hsel
  have hsent : ∀ i ∈ requiredPCRs stage, sent (requestOf G ak stage nonce values rsp) i = some (content i) :=
    fun i hi => sent_requestOf hvalues (hneeded i hi)
  have huki := hsent pcrUKI (by unfold requiredPCRs; split <;> decide)
  have hfirmware : ∀ i ∈ goldenFirmwarePCRs,
      sent (requestOf G ak stage nonce values rsp) i = some (content i) := by
    intro i hi
    apply hsent
    apply comparedPCRs_subset
    unfold comparedPCRs
    split
    · exact mem_append_left _ hi
    · exact hi
  rw [verdict_verified_iff]
  · refine ⟨policy, _, { he with
      nonce := henrolling.valid, stage := hstage, lookup := hpolicy, pin := henrolling.pin
      uki := hmatches.uki.trans huki.symm
      firmware := fun i hi => ?_, sysext := fun hready => ?_ }⟩
    · unfold MeetsGolden
      rw [hfirmware i hi]
      exact hmatches.firmware i hi
    · have hready : stage = .ready := hready
      have hs := hsent pcrSysext (by rw [hready]; decide)
      unfold MeetsGolden
      rw [hs]
      simpa using hmatches.sysext hready
  · intro policy' hpolicy'
    rw [hpolicy] at hpolicy'
    cases hpolicy'
    exact hval

end request

theorem attachLogs_ok {opts : Options σ} {req req' : BuiltRequest}
    (h : attachLogs host opts req = .ok req') : req'.toQuoteRequest = req.toQuoteRequest := by
  unfold attachLogs at h
  split at h
  · cases h
    rfl
  · simp only [bind_eq_ok_iff] at h
    obtain ⟨_, -, _, -, h⟩ := h
    cases h
    rfl

theorem buildWith_meets {opts : Options σ} {stage : Stage} {nonce : Text} (h : Honest G C tpm ak content Ready)
    (hrounds : pcrs.length ≤ rounds) (hbytes : ak.publicBytes = G.marshal ak.pub.toPublic) :
    Meets Ready (buildWith G host opts tpm ak rounds stage nonce data pcrs)
      (fun req => ∃ values rsp, req.toQuoteRequest = requestOf G ak stage nonce values rsp ∧
        (∀ i ∈ pcrs, values.get i = some (content i)) ∧
        QuotesFrom G C content ak.pub.toPublic data (selection bankAlg pcrs) rsp)
      fun _ => ¬ Answers host tpm ak Ready data pcrs := by
  apply Meets.bind
  · apply Meets.mapError
    exact ekPublic_meets h
  intro ekPub _
  apply Meets.bind
  · apply Meets.mapError
    exact readRounds_meets h hrounds (Subset.refl _) (by simp) fun i hi => .inl hi
  intro values hvalues
  apply Meets.bind (Q := QuotesFrom G C content ak.pub.toPublic data (selection bankAlg pcrs))
  · apply Meets.mapError
    apply Meets.command
    · exact fun s hs => (h.quote _ _ s hs).1
    · exact fun s rsp hs hok => (h.quote _ _ s hs).2 rsp hok
    · intro s err hs herr ha
      obtain ⟨rsp, hok⟩ := ha.quote s hs
      rw [herr] at hok
      cases hok
  · intro rsp hrsp
    apply Meets.ofExcept
    · intro req hreq
      refine ⟨values, rsp, ?_, hvalues, hrsp⟩
      rw [attachLogs_ok hreq, hbytes]
      rfl
    · intro err herr ha
      unfold attachLogs at herr
      split at herr
      · cases herr
      obtain ⟨eventLog, hevent⟩ := ha.logs (orDefault opts.firmwareLog defaultFirmwareLog)
      obtain ⟨userspaceLog, huser⟩ := ha.logs (orDefault opts.userspaceLog defaultUserspaceLog)
      rw [hevent, huser] at herr
      cases herr

/-- Honest guests are accepted: whatever the TPM answers in one round of reads, the agent comes to an
end, the request it builds is verified, and it builds one unless a command or a log fails. -/
theorem honest_guest_accepted (G : GoTPM) (C : Crypto) (hhash : G.hash algSHA256 = some .sha256)
    (havail : C.available .sha256 = true) (host : Host σ) (opts : Options σ) (tpm : TPM σ) (ak : AK)
    (content : Nat → Bytes) (Ready : σ → Prop) (h : Honest G C tpm ak content Ready) (s s₁ : σ)
    (hopen : openTPM host opts = .ok tpm) (hak : (ensureAK G tpm).exec s = some (.ok ak, s₁)) (hready : Ready s₁)
    (verifierOpts : Attest.Options) (now : Nat) (policyFor : String → Except PolicyError Policy) (v : Verifier)
    (vmID : String) (stage : Stage) (hstage : stage = .initrd ∨ stage = .ready) (nonce : Text)
    (henrolling : Enrolling G C verifierOpts now policyFor v vmID stage nonce ak content) (rounds : Nat)
    (hrounds : 10 ≤ rounds) : ∃ r s', (build G host opts rounds stage nonce).exec s = some (r, s') ∧
      (∀ req, r = .ok req → Verified (verdict G.toTPM2 C verifierOpts now policyFor v vmID req.toQuoteRequest)) ∧
      ((∀ data pcrs, decodeString nonce = some data → stageSelection stage = .ok pcrs →
        Answers host tpm ak Ready data pcrs) → ∃ req, r = .ok req) := by
  obtain ⟨raw, hraw, hnonce⟩ := henrolling.issued
  have hdecode : decodeString nonce = some raw := by rw [hnonce, decodeString_encodeToString]
  have hne : raw ≠ [] := by
    rintro rfl
    cases hraw
  have hqualifying : decodeNonce nonce = .ok raw := by
    have hnil : nonce ≠ [] := by
      rintro rfl
      cases hdecode
      exact hne rfl
    rw [decodeNonce, if_neg hnil, hdecode]
  have hselection : ∃ pcrs, stageSelection stage = .ok pcrs ∧ pcrs.length ≤ 10 := by
    rcases hstage with rfl | rfl
    · exact ⟨_, rfl, by decide⟩
    · exact ⟨_, rfl, by decide⟩
  obtain ⟨pcrs, hsel, hlen⟩ := hselection
  obtain ⟨hmatch, hbytes⟩ := ensureAK_ok hak
  have hbuild : (build G host opts rounds stage nonce).exec s =
      (buildWith G host opts tpm ak rounds stage nonce raw pcrs).exec s₁ := by
    unfold build
    simp only [Sequential.exec_bind, Sequential.exec_mapError, Sequential.ofExcept, Sequential.exec_command, hsel,
      hqualifying, hopen, hak, Except.mapError, bind_some, map_some]
  have hmeets : Meets Ready (buildWith G host opts tpm ak rounds stage nonce raw pcrs) _ _ :=
    buildWith_meets h (hlen.trans hrounds) hbytes
  obtain ⟨r, s', hr, -, ho⟩ := hmeets s₁ hready
  refine ⟨r, s', hbuild.trans hr, ?_, ?_⟩
  · rintro req rfl
    obtain ⟨values, rsp, hreq, hvalues, hrsp⟩ := ho
    rw [hreq]
    exact requestOf_verified hsel henrolling hvalues
      (requestOf_examined hhash havail hsel hdecode hne hmatch h.inverse h.size hvalues hrsp)
  · intro ha
    cases r with
    | ok req => exact ⟨req, rfl⟩
    | error err => exact absurd (ha raw pcrs hdecode hsel) ho

end honest

namespace Sample
open Attest.Sample

def goTPM : GoTPM where
  toTPM2 := tpm2
  marshalSignature sig := match sig.ecdsa with
    | .ok s => bytesOf 6 0x0018000b0020 ++ s.signatureR ++ bytesOf 2 0x0020 ++ s.signatureS
    | .error _ => []
  attributesText _ _ := ""

def area : Area where
  toPublic := publicOf quote1
  nameAlg := algSHA256
  otherAttributes := { userWithAuth := true, noDA := true }
  schemeHash := .ok algSHA256

def device : TPM Unit where
  readPublic h := fun s =>
    (if h = akHandle then .ok ⟨quote1.akPub, .ok area, []⟩ else .error ⟨"TPM_RC_HANDLE", true⟩, s)
  createPrimary _ _ := fun s => (.ok (⟨0x80000000, []⟩, []), s)
  create _ _ := fun s => (.error ⟨"TPM_RC_FAILURE", false⟩, s)
  load _ _ _ := fun s => (.error ⟨"TPM_RC_FAILURE", false⟩, s)
  evictControl _ _ _ := fun s => (.error ⟨"TPM_RC_FAILURE", false⟩, s)
  flushContext _ := fun s => (.ok (), s)
  pcrRead sel := fun s => match selected sel bankAlg with
    | i :: _ =>
      (if i < 24 then .ok ⟨selection bankAlg [i], [pcrValue i]⟩ else .error ⟨"TPM_RC_VALUE", false⟩, s)
    | [] => (.error ⟨"TPM_RC_VALUE", false⟩, s)
  quote _ data sel := fun s => match sel with
    | [⟨alg, bits⟩] =>
      (if alg = bankAlg ∧ bits = pcClientCompatible pcrIndexes ∧ data = bytesOf 32 quote1.nonce then
        .ok ⟨quote1.attest, signatureOf quote1⟩ else .error ⟨"TPM_RC_FAILURE", false⟩, s)
    | _ => (.error ⟨"TPM_RC_FAILURE", false⟩, s)

def ak : AK where
  object := ⟨akHandle, []⟩
  pub := area
  publicBytes := goTPM.marshal area.toPublic

theorem selected_single (h : i < 24) : selected (selection bankAlg [i]) bankAlg = [i] := by
  revert i
  decide +kernel

theorem decode_first {α : Type} (encode : SampleQuote → Bytes) (value : SampleQuote → α) (b : Bytes)
    (h : (encode quote1 == b) = true) : decode encode value b = .ok (value quote1) := by
  simp [decode, quotes, h]

theorem device_quotes : QuotesFrom goTPM crypto pcrValue area.toPublic (bytesOf 32 quote1.nonce)
    (selection bankAlg pcrIndexes) ⟨quote1.attest, signatureOf quote1⟩ where
  length := by decide +kernel
  magic := by decide +kernel
  attest := by
    refine ⟨attestOf quote1, decode_first SampleQuote.attest attestOf quote1.attest (by decide +kernel), rfl, rfl, ?_⟩
    have hbits : pcClientCompatible pcrIndexes = [0xff, 0x08, 0x00] := by decide +kernel
    have hdigest : crypto.sum .sha256
        ((selected (selection bankAlg pcrIndexes) bankAlg).flatMap pcrValue) = Sample.pcrDigest := by
      decide +kernel
    rw [hdigest]
    unfold selection
    rfl
  inverse := decode_first SampleQuote.signature signatureOf
    (goTPM.marshalSignature (signatureOf quote1)) (by decide +kernel)
  scheme := rfl
  signed := ⟨quote1.key, ⟨algSHA256, bytesOf 32 quote1.r, bytesOf 32 quote1.s⟩, rfl, rfl, rfl, by decide +kernel⟩

theorem device_honest : Honest goTPM crypto device ak pcrValue fun _ => True where
  inverse := decode_first SampleQuote.akPub publicOf (goTPM.marshal area.toPublic) (by decide +kernel)
  size i := by simp [pcrValue, Hash.size]
  readPublic _ _ _ := trivial
  createPrimary _ _ := trivial
  flushContext _ _ _ := trivial
  pcrRead pcrs s _ _ := by
    refine ⟨trivial, fun rsp hrsp => ?_⟩
    simp only [device] at hrsp
    split at hrsp
    · rename_i i rest hsel
      split at hrsp <;> cases hrsp
      have hi := selected_single (i := i) ‹_›
      exact ⟨by simp [hi], by simp [hi, hsel], by simp [hi]⟩
    · cases hrsp
  quote data pcrs s _ := by
    refine ⟨trivial, fun rsp hrsp => ?_⟩
    simp only [device, selection] at hrsp
    split at hrsp
    · rename_i h
      obtain ⟨-, hbits, rfl⟩ := h
      cases hrsp
      rw [selection, hbits]
      exact device_quotes
    · cases hrsp

def host : Host Unit where
  isSocket _ := false
  openDevice _ _ := .ok device
  log _ := .missing

theorem device_answers : Answers host device ak (fun _ => True) (bytesOf 32 quote1.nonce) pcrIndexes where
  readPublic s _ err h := by
    cases h
    rfl
  createPrimary s _ := ⟨_, rfl⟩
  pcrRead remaining s _ hne hsub := by
    have hlt : ∀ i ∈ pcrIndexes, i < 24 := by decide
    obtain ⟨j, hj⟩ := exists_mem_of_ne_nil _ hne
    cases hsel : selected (selection bankAlg remaining) bankAlg with
    | nil =>
      have hin : j ∈ selected (selection bankAlg remaining) bankAlg := mem_selected_selection.2 hj
      simp [hsel] at hin
    | cons i rest =>
      have hi : i ∈ remaining := mem_selected_selection.1 (by rw [hsel]; exact mem_cons_self)
      exact ⟨⟨selection bankAlg [i], [pcrValue i]⟩, by simp [device, hsel, hlt i (hsub hi)]⟩
  quote s _ := ⟨⟨quote1.attest, signatureOf quote1⟩, by simp [device, selection]⟩
  logs path := ⟨[], rfl⟩

theorem policy_matches : Matches {} Sample.policy .initrd pcrValue where
  uki := by decide +kernel
  firmware i hi := by
    revert i
    decide +kernel
  sysext h := by cases h

end Sample
open Sample

theorem honest_guest_accepted_first : let v : Verifier :=
      { nonces := Nonce.Store.issue {} 1000 "vm1" (Attest.Sample.nonceOf Attest.Sample.quote1) }
    ∃ req s', (build goTPM host {} 10 .initrd
        (Attest.Sample.nonceOf Attest.Sample.quote1)).exec () = some (.ok req, s') ∧
      Verified (verdict Attest.Sample.tpm2 Attest.Sample.crypto {} 2000
        (fun _ => .ok Attest.Sample.policy) v "vm1" req.toQuoteRequest) := by
  intro v
  have hdecode : decodeString (Attest.Sample.nonceOf Attest.Sample.quote1) =
      some (Attest.Sample.bytesOf 32 Attest.Sample.quote1.nonce) := decodeString_encodeToString _
  obtain ⟨r, s', hr, hverified, hok⟩ := honest_guest_accepted goTPM Attest.Sample.crypto rfl rfl
    host {} device ak Attest.Sample.pcrValue (fun _ => True)
    device_honest () () rfl rfl trivial {} 2000 (fun _ => .ok Attest.Sample.policy) v "vm1"
    .initrd (.inl rfl) (Attest.Sample.nonceOf Attest.Sample.quote1)
    { issued := ⟨_, by decide +kernel, rfl⟩
      valid := (Nonce.Store.consume_eq_true_iff _ _ _ _).1 (by decide +kernel)
      policy := ⟨_, rfl, by decide +kernel, policy_matches⟩
      pin := .inr ⟨rfl, rfl⟩ } 10 (Nat.le_refl _)
  obtain ⟨req, rfl⟩ := hok fun data pcrs hdata hpcrs => by
    rw [hdecode] at hdata
    cases hdata
    cases hpcrs
    exact device_answers
  exact ⟨req, s', hr, hverified req rfl⟩

end VmManager.Agent
