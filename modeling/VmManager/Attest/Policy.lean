import VmManager.Attest.Tpmquote

/-! The attestation policy of an image: the PCR values it expects of a guest, per phase of the boot,
per Kubernetes version and as recorded on a known-good boot. -/
namespace VmManager.Attest
open Encoding Tpmquote
variable {v : Text} {version : String}

/-- The boot phase a quote is taken in; the agent may send any text. -/
inductive Stage where
  | initrd
  | ready
  | unknown (text : String)
deriving DecidableEq, Repr

namespace Stage

def name : Stage → String
  | initrd => "initrd"
  | ready => "ready"
  | unknown text => text

def valid : Stage → Bool
  | unknown _ => false
  | _ => true

end Stage

def releasesUserData (stage : Stage) (verified : Bool) : Bool := verified && stage == .initrd

def bank : String := "sha256"
def phaseInitrd : String := "enter-initrd"
def phaseReady : String := "enter-initrd:leave-initrd:sysinit:ready"
def pcrUKI : Nat := 11
def pcrSysext : Nat := 13
def maxPCR : Nat := 23
def firmwarePCRs : List Nat := [0, 1, 2, 3, 4, 5, 6, 7]
def goldenFirmwarePCRs : List Nat := [0, 2, 3, 4, 6, 7]

def phaseFor (stage : Stage) : String :=
  if stage = .ready then phaseReady else phaseInitrd

def requiredPCRs (stage : Stage) : List Nat :=
  let pcrs := firmwarePCRs ++ [pcrUKI]
  if stage = .ready then pcrs ++ [pcrSysext] else pcrs

structure Firmware where
  sha256 : Text
  package : String := ""
  version : String := ""
deriving DecidableEq, Repr

def short (fingerprint : Text) : String := String.ofList (fingerprint.take 16)

namespace Firmware

def sameBuild (f o : Firmware) : Bool := toLower f.sha256 == toLower o.sha256

def text (f : Firmware) : String :=
  let name := (f.package ++ " " ++ f.version).trimAscii.toString
  if name = "" then "sha256 " ++ short f.sha256
  else name ++ " (sha256 " ++ short f.sha256 ++ ")"

end Firmware

structure Policy where
  pcr11 : List (String × Text)
  pcr13 : List (String × Text) := []
  golden : List (String × List (Int × Text)) := []
  goldenFirmware : Option Firmware := none
  kubernetesVersion : String := ""

def checkDigest (v : Text) : Except String Unit :=
  match decodeString v with
  | none => .error "not hex"
  | some b => if b.length ≠ 32 then .error (toString b.length ++ " bytes, want 32") else .ok ()

def checkAll {α : Type} (check : α → Except String Unit) : List α → Except String Unit
  | [] => .ok ()
  | a :: rest => do
    check a
    checkAll check rest

namespace Policy

def checkPhase (p : Policy) (phase : String) : Except String Unit :=
  match p.pcr11.lookup phase with
  | none => .error ("policy: pcr11 lacks phase \"" ++ phase ++ "\"")
  | some v => (checkDigest v).mapError fun err => "policy: pcr11[\"" ++ phase ++ "\"]: " ++ err

def checkVersion (e : String × Text) : Except String Unit :=
  if e.1 = "" then .error "policy: pcr13 has an entry without a kubernetes version"
  else (checkDigest e.2).mapError fun err => "policy: pcr13[\"" ++ e.1 ++ "\"]: " ++ err

def checkGolden (bankName : String) (e : Int × Text) : Except String Unit :=
  if e.1 < 0 ∨ e.1 > maxPCR then
    .error ("policy: golden." ++ bankName ++ ": pcr index " ++ toString e.1 ++ " out of range")
  else (checkDigest e.2).mapError fun err =>
    "policy: golden." ++ bankName ++ "[" ++ toString e.1 ++ "]: " ++ err

def checkBank (e : String × List (Int × Text)) : Except String Unit :=
  if e.1 ≠ bank then
    .error ("policy: golden bank \"" ++ e.1 ++ "\" is not supported, only " ++ bank)
  else checkAll (checkGolden e.1) e.2

def checkFirmware : Option Firmware → Except String Unit
  | none => .ok ()
  | some f => (checkDigest f.sha256).mapError fun err => "policy: golden_firmware.sha256: " ++ err

def validate (p : Policy) : Except String Unit := do
  checkAll p.checkPhase [phaseInitrd, phaseReady]
  checkAll checkVersion p.pcr13
  checkFirmware p.goldenFirmware
  checkAll checkBank p.golden

def recorded (p : Policy) (index : Nat) : Option Text := ((p.golden.lookup bank).getD []).lookup (index : Int)

def goldenValue (p : Policy) (index : Nat) : Option Text := (p.recorded index).map toLower

def expected (p : Policy) (index : Nat) : Option (Text × String) :=
  let golden := (p.goldenValue index).map fun want => (want, "")
  if index = pcrSysext ∧ p.kubernetesVersion ≠ "" then
    match p.pcr13.lookup p.kubernetesVersion with
    | some v => some (toLower v, p.kubernetesVersion)
    | none => golden
  else golden

end Policy

theorem checkDigest_ok (h : checkDigest v = .ok ()) :
    ∃ b, decodeString v = some b ∧ b.length = 32 := by
  unfold checkDigest at h
  split at h
  · cases h
  rename_i b hb
  split at h
  · cases h
  · exact ⟨b, hb, by omega⟩

theorem checkAll_eq_ok_iff {α : Type} {check : α → Except String Unit} {l : List α} :
    checkAll check l = .ok () ↔ ∀ a ∈ l, check a = .ok () := by
  induction l with
  | nil => simp [checkAll]
  | cons a rest ih =>
    rw [checkAll, bind_eq_ok_iff, List.forall_mem_cons, ← ih]
    exact ⟨fun ⟨_, ha, h⟩ => ⟨ha, h⟩, fun ⟨ha, h⟩ => ⟨(), ha, h⟩⟩

private theorem lookup_mem {α β : Type} [BEq α] [LawfulBEq α] {l : List (α × β)} {a : α} {b : β}
    (h : l.lookup a = some b) : (a, b) ∈ l := by
  obtain ⟨l₁, l₂, rfl, -⟩ := List.lookup_eq_some_iff.1 h
  simp

namespace Policy
variable {p : Policy}

theorem validate_eq_ok_iff : p.validate = .ok () ↔
    (∀ phase ∈ [phaseInitrd, phaseReady], p.checkPhase phase = .ok ()) ∧ (∀ e ∈ p.pcr13, checkVersion e = .ok ()) ∧
      checkFirmware p.goldenFirmware = .ok () ∧ ∀ e ∈ p.golden, checkBank e = .ok () := by
  simp only [validate, bind_eq_ok_iff, ← checkAll_eq_ok_iff]
  exact ⟨fun ⟨_, h11, _, h13, _, hfw, h⟩ => ⟨h11, h13, hfw, h⟩,
    fun ⟨h11, h13, hfw, h⟩ => ⟨(), h11, (), h13, (), hfw, h⟩⟩

theorem pcr11_of_validate (h : p.validate = .ok ()) (stage : Stage) :
    ∃ v b, p.pcr11.lookup (phaseFor stage) = some v ∧ decodeString v = some b := by
  have hphase : phaseFor stage ∈ [phaseInitrd, phaseReady] := by
    unfold phaseFor
    split <;> simp
  have hc := (validate_eq_ok_iff.1 h).1 _ hphase
  unfold checkPhase at hc
  split at hc
  · cases hc
  rename_i v hv
  obtain ⟨b, hb, -⟩ := checkDigest_ok (mapError_eq_ok_iff.1 hc)
  exact ⟨v, b, hv, hb⟩

theorem recorded_of_validate (h : p.validate = .ok ()) {index : Nat}
    (hv : p.recorded index = some v) : ∃ b, decodeString v = some b := by
  unfold recorded at hv
  cases hl : p.golden.lookup bank with
  | none => simp [hl] at hv
  | some values =>
    rw [hl, Option.getD_some] at hv
    have hb := (validate_eq_ok_iff.1 h).2.2.2 _ (lookup_mem hl)
    have he := checkAll_eq_ok_iff.1 hb _ (lookup_mem hv)
    unfold checkGolden at he
    split at he
    · cases he
    obtain ⟨b, hb, -⟩ := checkDigest_ok (mapError_eq_ok_iff.1 he)
    exact ⟨b, hb⟩

theorem version_ne_empty (h : p.validate = .ok ()) (hv : p.pcr13.lookup version = some v) : version ≠ "" := by
  have he := (validate_eq_ok_iff.1 h).2.1 _ (lookup_mem hv)
  unfold checkVersion at he
  split at he
  · cases he
  · assumption

theorem pcr13_of_validate (h : p.validate = .ok ())
    (hv : p.pcr13.lookup version = some v) : ∃ b, decodeString v = some b := by
  have he := (validate_eq_ok_iff.1 h).2.1 _ (lookup_mem hv)
  unfold checkVersion at he
  split at he
  · cases he
  obtain ⟨b, hb, -⟩ := checkDigest_ok (mapError_eq_ok_iff.1 he)
  exact ⟨b, hb⟩

end Policy

end VmManager.Attest
