import VmManager.Encoding.Shell
import VmManager.Vm.System

/-! Commands in a guest. Exec looks the VM up, connects through its network, authenticates both ends and
hands one command line to the shell of the guest: the words of the command, each in single quotes. -/
namespace VmManager.Vm
open Encoding

structure ExecResult where
  stdout : Bytes := []
  stderr : Bytes := []
  exitCode : Int := 0
deriving DecidableEq, Repr

inductive Exit where
  | status (code : Int)
  | lost (text : String)

/-- What the calls of Exec to the network, to its files and to the guest give. `hostKey` is the answer of
the callback that pins the key of the guest, `handshake` that of the library. -/
structure Ssh where
  signer : Except String Unit
  dial : Except String Unit
  hostKey : Except String Unit
  handshake : Except String Unit
  session : Except String Unit
  run : Bytes → Bytes × Bytes × Exit

def sshAddr (ip : String) : String := if ':' ∈ ip.toList then "[" ++ ip ++ "]:22" else ip ++ ":22"

def shellJoin (cmd : List Bytes) : Bytes := [0x20].intercalate (cmd.map Shell.quote)

def runLine (ssh : Ssh) (line : Bytes) : ExecResult × Option String :=
  match ssh.run line with
  | (stdout, stderr, .status code) => (⟨stdout, stderr, code⟩, none)
  | (stdout, stderr, .lost text) => (⟨stdout, stderr, 0⟩, some ("ssh run: " ++ text))

def handshakeError (ssh : Ssh) (err : String) : String :=
  match ssh.hostKey with
  | .error pin => pin
  | .ok () => err

/-- Exec up to the session with the guest. The VM is looked up in `s`, its record is read in `s'` and its
network in `s''`: each is a critical section of its own. `ip` is how the address of the record is written. -/
def connect (ssh : Ssh) (ip : VM → String) (s s' s'' : System) (id : String) (cmd : List Bytes) :
    Except String Unit := do
  if cmd = [] then throw "invalid request: command is empty"
  let some e := s.vms.get id | throw ("not found: vm \"" ++ id ++ "\"")
  let r := s'.record e
  if (s'.entries e).proc = none then
    throw ("conflict: vm " ++ id ++ " is not running (" ++ r.state.name ++ ")")
  let some _ := s''.nets.get r.spec.network | throw ("not found: network \"" ++ r.spec.network ++ "\"")
  ssh.signer
  let addr := sshAddr (ip r)
  ssh.dial.mapError fun err => "dial " ++ addr ++ ": " ++ err
  ssh.handshake.mapError fun err => "ssh " ++ addr ++ ": " ++ handshakeError ssh err
  ssh.session.mapError fun err => "ssh session: " ++ err

def execLine (ssh : Ssh) (ip : VM → String) (s s' s'' : System) (id : String) (cmd : List Bytes) :
    Except String Bytes :=
  (connect ssh ip s s' s'' id cmd).map fun () => shellJoin cmd

def exec (ssh : Ssh) (ip : VM → String) (s s' s'' : System) (id : String) (cmd : List Bytes) :
    ExecResult × Option String :=
  match execLine ssh ip s s' s'' id cmd with
  | .ok line => runLine ssh line
  | .error err => ({}, some err)

theorem execLine_eq_ok {ssh : Ssh} {ip : VM → String} {s s' s'' : System} {id : String} {cmd : List Bytes}
    {line : Bytes} (h : execLine ssh ip s s' s'' id cmd = .ok line) : line = shellJoin cmd := by
  rw [execLine] at h
  cases hc : connect ssh ip s s' s'' id cmd with
  | error err =>
    rw [hc] at h
    cases h
  | ok u =>
    rw [hc] at h
    exact (Except.ok.inj h).symm

theorem exec_argument_vector (cmd : List Bytes) (h : ∀ w ∈ cmd, 0 ∉ w) :
    Shell.split (shellJoin cmd) = some (cmd.map Shell.literal) ∧ Shell.arguments (shellJoin cmd) = some cmd ∧
    ∀ ssh ip s s' s'' id line, execLine ssh ip s s' s'' id cmd = .ok line →
      Shell.arguments line = some cmd ∧ exec ssh ip s s' s'' id cmd = runLine ssh line := by
  have hsplit : Shell.split (shellJoin cmd) = some (cmd.map Shell.literal) := Shell.split_quotes cmd h
  have hargs := Shell.arguments_of_split hsplit
  refine ⟨hsplit, hargs, ?_⟩
  intro ssh ip s s' s'' id line hline
  refine ⟨?_, ?_⟩
  · rw [execLine_eq_ok hline, hargs]
  · rw [exec, hline]

theorem exec_argument_vector_sample :
    Shell.arguments (shellJoin [[101, 99, 104, 111], [], [105, 116, 39, 115], [36, 40, 120, 41, 10]]) =
      some [[101, 99, 104, 111], [], [105, 116, 39, 115], [36, 40, 120, 41, 10]] :=
  (exec_argument_vector _ (by decide)).2.1

end VmManager.Vm
