import VmManager.GuestImage.Pull
import VmManager.Images.Tree

/-! The sysupdate files the metadata service hands to guests. The router decodes each element of the path by
itself, so a component or a file name may contain slashes and dot segments, which joining them removes: what
is opened then is not the entry of a component. The handler knows a file that does not exist and a path that is
not valid (404), a directory (404), and no other reason why a file is not opened (500). -/
namespace VmManager.Imds
open Encoding Images GuestImage List

inductive OpenError where
  | notExist | invalid | other
deriving DecidableEq, Repr

/-- The sysupdate directory; opening a path may also fail for a reason of its own. -/
structure Root where
  node : Node
  fails : List Text → Bool := fun _ => false

inductive Response where
  | ok (data : Text) | stream | notFound | unavailable
deriving DecidableEq, Repr

def join (component file : String) : String :=
  if component = "" ∧ file = "" then ""
  else if component = "" then clean file
  else clean (component ++ "/" ++ file)

def validPath (name : String) : Bool :=
  name = "." || (elements name).all fun e => e ≠ "" && e ≠ "." && e ≠ ".."

def nameMax : Nat := 255

def openNode : List Text → Node → Except OpenError Node
  | [], n => match n.follow with
    | some m => .ok m
    | none => .error .notExist
  | name :: rest, n => match n.follow with
    | some (.dir entries) =>
      if nameMax < (String.ofList name).utf8ByteSize then .error .other
      else match entries.lookup name with
        | some m => openNode rest m
        | none => .error .notExist
    | some _ => .error .other
    | none => .error .notExist

namespace Root
variable (r : Root)

def openFile (name : String) : Except OpenError Node :=
  if !validPath name || name.toList.contains '\x00' then .error .invalid
  else
    let path := (pathOf name).map String.toList
    if r.fails path then .error .other else openNode path r.node

def sysupdate (component file : String) : Response :=
  match r.openFile (join component file) with
  | .error .notExist | .error .invalid => .notFound
  | .error .other => .unavailable
  | .ok (.dir _) => .notFound
  | .ok (.file data) => .ok data
  | .ok _ => .stream

end Root

section routing

end routing

def Single (name : String) : Prop :=
  name ≠ "" ∧ name ≠ "." ∧ name ≠ ".." ∧ '/' ∉ name.toList ∧ '\x00' ∉ name.toList

instance (name : String) : Decidable (Single name) := inferInstanceAs (Decidable (_ ∧ _ ∧ _ ∧ _ ∧ _))

namespace Root
variable (r : Root)

def componentFile (component file : String) : Option Text :=
  match r.node.follow with
  | some (.dir entries) => match entries.lookup component.toList with
    | some (.dir below) => match below.lookup file.toList with
      | some (.file data) => some data
      | _ => none
    | _ => none
  | _ => none

def intended (component file : String) : Response :=
  if Single component ∧ Single file then
    match r.componentFile component file with
    | some data => .ok data
    | none => .notFound
  else .notFound

end Root

section lemmas
variable {r : Root} {component file : String}

end lemmas

namespace Sample

def root : Root where
  node := .dir [("SHA256SUMS".toList, .file "sums".toList),
    ("kubernetes".toList, .dir [("kubernetes_1.33.2.raw".toList, .file "sysext".toList),
      ("nested".toList, .dir [("kubernetes_1.33.raw".toList, .file "nested".toList)])])]

end Sample
open Sample

end VmManager.Imds
