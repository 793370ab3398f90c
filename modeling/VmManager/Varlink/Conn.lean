import Mathlib.Algebra.Group.Nat.Defs
import VmManager.Data.Slice

/-! The receiving half of a Varlink connection: messages that end with a NUL byte and the file
descriptors that come with them, cut into pieces by the kernel. What the kernel returns is a list of
results of recvmsg; a malformed header there makes the whole ancillary data unreadable. The descriptors
received, handed out and closed are kept for the properties; the source does not count them. Stream offsets,
int64 in the source, are natural numbers: fewer than 2^63 bytes come over one connection. -/
namespace VmManager.Varlink

def maxMessageSize : Nat := 16 * 2 ^ 20

inductive Control where
  | rights (fds : List Int)
  | other
  | malformed (err : String)

inductive ReadError where
  | eof
  | other (text : String)

structure Recv where
  bytes : List UInt8
  oob : List Control := []
  badOob : Option String := none
  truncated : Bool := false
  err : Option ReadError := none

structure RightsBatch where
  last : Nat
  fds : List Int

structure Conn where
  err : Option String := none
  rbuf : List UInt8 := []
  pos : Nat := 0
  rights : List RightsBatch := []
  received : List Int := []
  handed : List Int := []
  closed : List Int := []

namespace Conn
variable (c : Conn)

def addRights (last : Nat) (fds : List Int) : Conn :=
  { c with rights := c.rights ++ [⟨last, fds⟩], received := c.received ++ fds }

def collectRights (last : Nat) : Conn → List Control → Option String × Conn
  | c, [] => (none, c)
  | c, .rights fds :: msgs => collectRights last (c.addRights last fds) msgs
  | c, .other :: msgs => collectRights last c msgs
  | c, .malformed err :: _ => (some ("varlink: parse SCM_RIGHTS: " ++ err), c)

def readOob (x : Recv) : Option String × Conn :=
  let start := c.pos + c.rbuf.length
  let last := if 0 < x.bytes.length then start + x.bytes.length - 1 else start
  match x.badOob with
  | some err => (some ("varlink: parse ancillary data: " ++ err), c)
  | none => collectRights last c x.oob

def ReadError.text : ReadError → String
  | .eof => "varlink: unexpected EOF"
  | .other text => "varlink: receive: " ++ text

def read (x : Recv) : Option String × Conn :=
  match c.readOob x with
  | (some err, c) => (some err, c)
  | (none, c) =>
    if x.truncated then (some "varlink: ancillary data truncated, file descriptors lost", c)
    else (x.err.map ReadError.text, { c with rbuf := c.rbuf ++ x.bytes })

def takeFiles (stop : Nat) : List Int × Conn :=
  let files := (c.rights.filter fun b => !decide (b.last > stop)).flatMap fun b =>
    b.fds.filter fun fd => decide (0 ≤ fd)
  (files, { c with
    rights := Slice.compact (fun b => decide (b.last > stop)) c.rights, handed := c.handed ++ files })

variable {ρ : Type} (decode : List UInt8 → Except String ρ)

def consume (i : Nat) : Except String (ρ × List Int) × Conn :=
  match decode (c.rbuf.take i) with
  | .error err => (.error ("varlink: malformed reply: " ++ err), c)
  | .ok r =>
    let stop := c.pos + i
    let taken := { c with rbuf := Slice.shift (i + 1) c.rbuf, pos := stop + 1 }.takeFiles stop
    (.ok (r, taken.1), taken.2)

/-- Reads until a message is complete. The list is what recvmsg will return; without an element of it
the call waits. -/
def receive (c : Conn) (script : List Recv) : Option (Except String (ρ × List Int) × Conn × List Recv) :=
  match c.rbuf.findIdx? (· == 0) with
  | some i =>
    let done := c.consume decode i
    some (done.1, done.2, script)
  | none =>
    if c.rbuf.length > maxMessageSize then
      some (.error ("varlink: reply exceeds " ++ toString maxMessageSize ++ " bytes"), c, script)
    else match script with
    | [] => none
    | x :: rest => match c.read x with
      | (some err, c') => some (.error err, c', rest)
      | (none, c') => receive c' rest
termination_by structural script

def shutdown (cause : String) : Conn :=
  if c.err.isSome then c
  else { c with
    err := some cause, closed := c.closed ++ c.rights.flatMap (fun b => b.fds), rights := [] }

end Conn

structure Sent where
  body : List UInt8
  batches : List (List Int) := []

def stream (ms : List Sent) : List UInt8 := ms.flatMap fun m => m.body ++ [0]

def delivered (script : List Recv) : List UInt8 := script.flatMap fun x => x.bytes

def Control.batch : Control → Option (List Int)
  | .rights fds => some fds
  | _ => none

def Recv.batches (x : Recv) : List (List Int) := x.oob.filterMap Control.batch

def marks : Nat → List Recv → List RightsBatch
  | _, [] => []
  | start, x :: script =>
    (x.batches.map fun fds => ⟨start + x.bytes.length - 1, fds⟩) ++ marks (start + x.bytes.length) script

structure Recv.Clean (x : Recv) : Prop where
  some : x.bytes ≠ []
  oob : ∀ m ∈ x.oob, ∀ err, m ≠ .malformed err
  badOob : x.badOob = none
  truncated : x.truncated = false
  err : x.err = none

/-- The kernel delivers the messages: all bytes in order, and the bytes returned with a batch end inside
the message that batch was sent with. -/
structure Cut (ms : List Sent) (script : List Recv) : Prop where
  clean : ∀ x ∈ script, x.Clean
  bytes : delivered script = stream ms
  valid : ∀ m ∈ ms, ∀ fds ∈ m.batches, ∀ fd ∈ fds, 0 ≤ fd
  rule : ∀ before m after, ms = before ++ m :: after →
    ((marks 0 script).filter fun b => decide ((stream before).length ≤ b.last ∧
      b.last ≤ (stream before).length + m.body.length)).map (fun b => b.fds) = m.batches

end VmManager.Varlink
