import VmManager.Data.GoMap
import VmManager.Interleaving.Stepper

/-! Pull of a guest image: the artifact's files replace what the image directory holds, and a marker
file in the same directory names the digest of what was fetched. A step is one call to the registry or
to the file system; any of them may fail, and the process may die between two of them. Directories are
the paths of the files in them. -/
namespace VmManager.GuestImage
open Interleaving

abbrev Bytes := List UInt8

abbrev Path := List String

def guestImageType : String := "application/vnd.giantswarm.vm-manager.guest-image.v1"
def markerFile : String := ".guest-image.json"

structure Layer where
  digest : String
  /-- The title annotation; empty without one. -/
  title : String
  content : Bytes
deriving DecidableEq, Repr

structure Manifest where
  artifactType : String
  layers : List Layer
deriving DecidableEq, Repr

structure Marker where
  reference : String
  digest : String
  files : Nat
  pulledAt : Nat
deriving DecidableEq, Repr

/-- What a file holds. A marker whose write was cut short is no JSON. -/
inductive Content where
  | layer (bytes : Bytes)
  | marker (m : Marker)
  | torn
deriving DecidableEq, Repr

structure Result where
  digest : String
  files : Nat
  fetched : Bool
deriving DecidableEq, Repr

def elements (name : String) : List String := (name.toList.splitOn '/').map String.ofList

def isAbs (name : String) : Bool := name.toList.head? == some '/'

def cleanElement (rooted : Bool) (es : List String) (e : String) : List String :=
  if e = "" ∨ e = "." then es
  else if e = ".." then
    match es with
    | [] => if rooted then [] else [".."]
    | last :: rest => if last = ".." then ".." :: es else rest
  else e :: es

def clean (name : String) : String :=
  let es := ((elements name).foldl (cleanElement (isAbs name)) []).reverse
  if isAbs name then "/" ++ "/".intercalate es
  else if es = [] then "." else "/".intercalate es

def pathOf (name : String) : Path := if name = "." then [] else elements name

def fileName (l : Layer) : Except String String :=
  if l.title = "" then .error ("layer " ++ l.digest ++ " has no file name")
  else if isAbs l.title || l.title != clean l.title || ['.', '.'].isPrefixOf l.title.toList then
    .error ("layer " ++ l.digest ++ " names \"" ++ l.title ++ "\", not a path inside the image directory")
  else .ok l.title

def artifactFiles (m : Manifest) : Except String (List String) :=
  if m.artifactType ≠ guestImageType then
    .error ("not a guest image artifact: artifactType \"" ++ m.artifactType ++ "\", want \"" ++
      guestImageType ++ "\"")
  else m.layers.mapM fileName

abbrev Dir := GoMap Path Content

namespace Dir
variable (d : Dir)

def Blocked (p : Path) : Prop := p = [] ∨ ∃ q ∈ d.keys, q ≠ p ∧ (q <+: p ∨ p <+: q)

instance (p : Path) : Decidable (d.Blocked p) := inferInstanceAs (Decidable (_ ∨ ∃ q ∈ d.keys, _))

def write (p : Path) (c : Content) : Option Dir := if Blocked d p then none else some (d.insert p c)

def list : List String := (d.keys.filterMap fun p => p.head?).dedup.insertionSort (· ≤ ·)

def removeSome (e : String) (gone : List Path) : Dir :=
  (gone.filter fun p => decide (p.head? = some e)).foldl (fun d p => d.erase p) d

def removeAll (e : String) : Dir := removeSome d e d.keys

end Dir

variable (unmarshal : Bytes → Option Marker) (registry : String → Option Manifest)

def readMarker (d : Dir) : Option Marker :=
  match d.get [markerFile] with
  | some (.layer bytes) => unmarshal bytes
  | some (.marker m) => some m
  | _ => none

structure Artifact where
  reference : String
  digest : String
  files : Nat

inductive Phase where
  | idle
  | checking (a : Artifact)
  | listing (a : Artifact)
  /-- The entries `clear` has still to remove. -/
  | clearing (a : Artifact) (es : List String)
  /-- The layers the copy has still to write. -/
  | copying (a : Artifact) (left : List Layer)
  | marking (a : Artifact)

structure System where
  dir : Dir := ∅
  phase : Phase := .idle

inductive Move where
  /-- A Pull whose reference resolves to the digest and whose manifest could be read. -/
  | pull (reference digest : String)
  /-- Looks at the marker, which may be unreadable. -/
  | check (readable : Bool)
  | readDir
  | remove
  /-- RemoveAll fails after some files. -/
  | removeFails (gone : List Path) (err : String)
  /-- The copy resolves the reference once more. -/
  | copy (digest : String)
  /-- The first bytes of a layer are on disk. -/
  | fetch (i n : Nat)
  | fetched (i : Nat)
  | copied
  | writeMarker (now : Nat)
  | tearMarker (err : String)
  | fail (err : String)
  | die

abbrev Outcome := Option (Except String Result)

def System.fails (s : System) (err : String) : System × Outcome := ({ s with phase := .idle }, some (.error err))

def step (s : System) (mv : Move) : Option (System × Outcome) :=
  match s.phase, mv with
  | .idle, .pull reference digest => (registry digest).map fun m => match artifactFiles m with
    | .error err => s.fails (reference ++ ": " ++ err)
    | .ok files => ({ s with phase := .checking ⟨reference, digest, files.length⟩ }, none)
  | .checking a, .check readable =>
    if readable ∧ (readMarker unmarshal s.dir).map Marker.digest = some a.digest then
      some ({ s with phase := .idle }, some (.ok ⟨a.digest, a.files, false⟩))
    else some ({ s with phase := .listing a }, none)
  | .listing a, .readDir => some ({ s with phase := .clearing a (Dir.list s.dir) }, none)
  | .clearing a (e :: es), .remove => some (⟨Dir.removeAll s.dir e, .clearing a es⟩, none)
  | .clearing _ (e :: _), .removeFails gone err =>
    some (System.fails ⟨Dir.removeSome s.dir e gone, s.phase⟩ err)
  | .clearing a [], .copy digest => (registry digest).map fun m =>
    ({ s with phase := .copying a m.layers }, none)
  | .copying a left, .fetch i n => do
    let l ← left[i]?
    let dir ← Dir.write s.dir (pathOf l.title) (.layer (l.content.take n))
    pure (⟨dir, .copying a left⟩, none)
  | .copying a left, .fetched i => do
    let l ← left[i]?
    let dir ← Dir.write s.dir (pathOf l.title) (.layer l.content)
    pure (⟨dir, .copying a (left.eraseIdx i)⟩, none)
  | .copying a [], .copied => some ({ s with phase := .marking a }, none)
  | .copying a _, .fail err => some (s.fails ("pull " ++ a.reference ++ ": " ++ err))
  | .marking a, .writeMarker now => do
    let dir ← Dir.write s.dir [markerFile] (.marker ⟨a.reference, a.digest, a.files, now⟩)
    pure (⟨dir, .idle⟩, some (.ok ⟨a.digest, a.files, true⟩))
  | .marking _, .tearMarker err => do
    let dir ← Dir.write s.dir [markerFile] .torn
    pure (⟨dir, .idle⟩, some (.error err))
  | .idle, _ => none
  | _, .fail err => some (s.fails err)
  | _, .die => some ({ s with phase := .idle }, none)
  | _, _ => none

def Complete (d : Dir) (m : Manifest) : Prop := ∀ l ∈ m.layers, d.get (pathOf l.title) = some (.layer l.content)

def Truthful (d : Dir) : Prop :=
  ∀ mk, readMarker unmarshal d = some mk → ∃ m, registry mk.digest = some m ∧ Complete d m

def advance (s : System) (mv : Move) : Option System := (step unmarshal registry s mv).map fun x => x.1

def Pulls (K : System → Move → Prop) : System → Prop :=
  Reached (advance unmarshal registry)
    (fun s => s.phase = .idle ∧ s.dir.get [] = none ∧ s.dir.get [markerFile] = none) K

/-- The files have names of their own, all of them after the marker's in a listing. -/
structure Manifest.Ordinary (m : Manifest) : Prop where
  after : ∀ l ∈ m.layers, ∀ e ∈ (pathOf l.title).head?, markerFile < e
  distinct : (m.layers.map fun l => pathOf l.title).Nodup

def Phase.emptied : Phase → Option Artifact
  | .clearing a [] => some a
  | _ => none

/-- A Pull is of an ordinary artifact, and its reference still means that artifact when it is copied. -/
def Steady (s : System) : Move → Prop
  | .pull _ digest => ∀ m ∈ registry digest, m.Ordinary
  | .copy digest => ∀ a ∈ s.phase.emptied, digest = a.digest
  | _ => True

instance (m : Manifest) : Decidable m.Ordinary :=
  decidable_of_iff ((∀ l ∈ m.layers, ∀ e ∈ (pathOf l.title).head?, markerFile < e) ∧
      (m.layers.map fun l => pathOf l.title).Nodup)
    ⟨fun h => ⟨h.1, h.2⟩, fun h => ⟨h.after, h.distinct⟩⟩

instance (s : System) (mv : Move) : Decidable (Steady registry s mv) :=
  match mv with
  | .pull _ digest => inferInstanceAs (Decidable (∀ m ∈ registry digest, m.Ordinary))
  | .copy digest => inferInstanceAs (Decidable (∀ a ∈ s.phase.emptied, digest = a.digest))
  | .check .. | .readDir | .remove | .removeFails .. | .fetch .. | .fetched .. | .copied
  | .writeMarker .. | .tearMarker .. | .fail .. | .die => inferInstanceAs (Decidable True)

end VmManager.GuestImage
