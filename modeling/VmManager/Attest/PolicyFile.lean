import VmManager.Attest.Policy
import VmManager.Encoding.JsonDecode

/-! The policy file: how the verifier reads it. Fields it does not use are left out, except that the image's id
and version have to be strings. -/
namespace VmManager.Attest
open Encoding Json

/-- Why a policy is refused; what encoding/json says is left out. -/
inductive ParseError where
  | json
  | invalid (text : String)
deriving DecidableEq, Repr

def intoTable : List (String × Text) → Json → Option (List (String × Text)) :=
  intoMap (fun key => some (String.ofList key)) (intoString [])

def intoGolden : List (String × List (Int × Text)) → Json → Option (List (String × List (Int × Text))) :=
  intoMap (fun key => some (String.ofList key)) (intoMap parseInt (intoString []) [])

/-- A firmware build that is met again keeps the fields the second one does not name. -/
def intoFirmware (old : Option Firmware) : Json → Option (Option Firmware)
  | .null => some none
  | .obj members => do
    let f := old.getD { sha256 := [] }
    let sha256 ← field "sha256" intoString f.sha256 members
    let package ← field "package" intoString f.package.toList members
    let version ← field "version" intoString f.version.toList members
    some (some { sha256, package := String.ofList package, version := String.ofList version })
  | _ => none

namespace Policy

def unmarshal : Json → Option Policy
  | .null => some { pcr11 := [] }
  | .obj members => do
    let _ ← field "image_id" intoString [] members
    let _ ← field "image_version" intoString [] members
    let pcr11 ← field "pcr11" intoTable [] members
    let pcr13 ← field "pcr13" intoTable [] members
    let golden ← field "golden" intoGolden [] members
    let goldenFirmware ← field "golden_firmware" intoFirmware none members
    some { pcr11, pcr13, golden, goldenFirmware }
  | _ => none

end Policy

def parsePolicy (raw : Text) : Except ParseError Policy :=
  match (parse raw).bind Policy.unmarshal with
  | none => .error .json
  | some p => match p.validate with
    | .ok () => .ok p
    | .error err => .error (.invalid err)

section reading
variable {raw : Text} {p : Policy}

theorem parsePolicy_eq_ok_iff : parsePolicy raw = .ok p ↔
    ∃ j, parse raw = some j ∧ Policy.unmarshal j = some p ∧ p.validate = .ok () := by
  constructor
  · intro h
    unfold parsePolicy at h
    split at h
    · cases h
    rename_i q hq
    obtain ⟨j, hj, hu⟩ := Option.bind_eq_some_iff.1 hq
    split at h <;> cases h
    exact ⟨j, hj, hu, ‹_›⟩
  · intro ⟨j, hj, hu, hv⟩
    simp [parsePolicy, hj, hu, hv]

theorem intoGolden_escapeHTML (old : List (String × List (Int × Text))) (j : Json) :
    intoGolden old j.escapeHTML = intoGolden old j :=
  intoMap_escapeHTML (intoMap_escapeHTML (intoString_escapeHTML []) []) old j

theorem intoFirmware_escapeHTML (old : Option Firmware) (j : Json) :
    intoFirmware old j.escapeHTML = intoFirmware old j := by
  cases j with
  | obj members =>
    rw [escapeHTML_obj]
    simp only [intoFirmware, field_escapeHTML intoString_escapeHTML]
  | _ => rfl

end reading

end VmManager.Attest
