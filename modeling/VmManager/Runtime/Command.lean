import VmManager.Data.GoMap
import VmManager.Runtime.Compat

/-! The QEMU command line of a VM, as arguments, and how QEMU reads the options in them. -/
namespace VmManager.Runtime.Command
open Encoding Images Runtime.Compat List
variable {seen seen' : List Text} {t : Text} {n : Netdev} {α : Type} {d : Drive} {o : Opt}

structure Golib where
  quote : Text → Text
  printable : Text → Bool
  base64 : Text → Text

structure Drive where
  path : Text
  serial : Text
  format : Text := []
  readOnly : Bool := false

structure Netdev where
  id : Text
  backend : Text
  mac : Text

structure SMBIOS where
  manufacturer : Text := []
  product : Text := []
  version : Text := []
  serial : Text := []

structure Spec where
  id : Text
  phase : Text
  cpus : Int
  memoryMiB : Int
  uki : Text := []
  installer : Text := []
  target : Text
  extraDrives : List Drive := []
  netdevs : List Netdev := []
  smbios : SMBIOS := {}
  credentials : GoMap Text Text := ∅
  kernelCmdlineExtra : Text := []
  vsockCID : UInt32
  tpmSocket : Text := []
  ovmfCode : Text
  ovmfVars : Text
  serialLog : Text
  qmpSocket : Text
  noReboot : Bool := false

def phaseInstall : Text := "install".toList
def phaseBoot : Text := "boot".toList
def serialInstaller : Text := "installer".toList
def serialTarget : Text := "target".toList
def defaultManufacturer : Text := "GiantSwarm".toList
def defaultProduct : Text := "vm-manager".toList
def minCID : Nat := 3
def maxCID : Nat := 0xFFFFFFFE
def credentialPrefixText : Text := "io.systemd.credential:".toList
def credentialBinaryPrefixText : Text := "io.systemd.credential.binary:".toList
def cmdlineExtraPrefixText : Text := "io.systemd.stub.kernel-cmdline-extra=".toList
def virtioSerialMax : Nat := 20
def maxUnixSocketPath : Nat := 107
def driveFormats : List Text := ["raw".toList, "qcow2".toList]

/-! Validation. An error is given by its message, which every caller wraps in ErrInvalid. -/
section validate

def isIdChar (c : Char) : Bool :=
  ('A' ≤ c && c ≤ 'Z') || ('a' ≤ c && c ≤ 'z') || isDigit c || c == '.' || c == '_' || c == '-'

def serialPattern (t : Text) : Bool := t ≠ [] && t.all isIdChar

def isTypeChar (c : Char) : Bool := ('a' ≤ c && c ≤ 'z') || isDigit c || c == '-'

def backendRest : Text → Bool
  | [] => true
  | ',' :: t => t.takeWhile isIdChar ≠ [] && (t.dropWhile isIdChar).head? == some '=' &&
      (t.dropWhile isIdChar).all (· ≠ '\n')
  | _ => false

def netdevBackendPattern : Text → Bool
  | [] => false
  | c :: t => ('a' ≤ c && c ≤ 'z') && backendRest (t.dropWhile isTypeChar)

def isHexDigit (c : Char) : Bool := isDigit c || ('a' ≤ c && c ≤ 'f') || ('A' ≤ c && c ≤ 'F')

def xtoi2 (s : Text) (e : Char) : Bool :=
  (s.length ≤ 2 || s[2]? == some e) && (s.take 2).length == 2 && (s.take 2).all isHexDigit

def parseMAC (s : Text) : Option Nat :=
  if s.length < 14 then none
  else if s[2]? = some ':' ∨ s[2]? = some '-' then
    let n := (s.length + 1) / 3
    if (s.length + 1) % 3 ≠ 0 ∨ n ∉ [6, 8, 20] then none
    else if (range n).all fun i => xtoi2 (s.drop (3 * i)) (s.getD 2 ':') then some n
    else none
  else if s[4]? = some '.' then
    let n := 2 * (s.length + 1) / 5
    if (s.length + 1) % 5 ≠ 0 ∨ n ∉ [6, 8, 20] then none
    else if (range (n / 2)).all fun i =>
      xtoi2 ((s.drop (5 * i)).take 2) '\x00' && xtoi2 (s.drop (5 * i + 2)) '.' then some n
    else none
  else none

variable (lib : Golib)

def validateDrive (d : Drive) (seen : List Text) : Except Text (List Text) :=
  if d.path = [] then .error ("drive ".toList ++ lib.quote d.serial ++ " has no path".toList)
  else if d.format ≠ [] ∧ d.format ∉ driveFormats then
    .error ("drive ".toList ++ lib.quote d.serial ++ " format ".toList ++ lib.quote d.format ++
      " must be raw or qcow2".toList)
  else if d.serial = [] ∨ virtioSerialMax < d.serial.length ∨ serialPattern d.serial = false then
    .error ("drive serial ".toList ++ lib.quote d.serial ++ " must be 1-".toList ++ itoa virtioSerialMax ++
      " characters of [A-Za-z0-9._-]".toList)
  else if d.serial ∈ seen then .error ("drive serial ".toList ++ lib.quote d.serial ++ " is used twice".toList)
  else .ok (d.serial :: seen)

def validateNetdev (n : Netdev) (seen : List Text) : Except Text (List Text) :=
  if n.id = [] ∨ serialPattern n.id = false then
    .error ("netdev id ".toList ++ lib.quote n.id ++ " must be [A-Za-z0-9._-]".toList)
  else if n.id ∈ seen then .error ("netdev id ".toList ++ lib.quote n.id ++ " is used twice".toList)
  else if n.backend = [] ∨ "id=".toList <:+: n.backend then
    .error ("netdev ".toList ++ lib.quote n.id ++ " backend must be set and carry no id".toList)
  else if netdevBackendPattern n.backend = false then
    .error ("netdev ".toList ++ lib.quote n.id ++ " backend ".toList ++ lib.quote n.backend ++
      " must start with the backend type, e.g. \"user\" or \"stream,addr.type=unix,...\"".toList)
  else if parseMAC n.mac ≠ some 6 then
    .error ("netdev ".toList ++ lib.quote n.id ++ " mac ".toList ++ lib.quote n.mac ++
      " is not a 48-bit address".toList)
  else .ok (n.id :: seen)

def validateCredentialName (name : Text) : Except Text Unit :=
  if name = [] ∨ name = ['.'] ∨ name = ['.', '.'] ∨ 255 < name.length then
    .error ("credential name ".toList ++ lib.quote name ++ " must be 1-255 characters and not . or ..".toList)
  else if name.any fun r => r < ' ' || '~' < r || r == '/' || r == ':' || r == '=' then
    .error ("credential name ".toList ++ lib.quote name ++
      " may only contain printable ASCII without / : =".toList)
  else .ok ()

def validateFields (s : Spec) : Except Text Unit :=
  if s.id = [] then .error "vm id is required".toList
  else if s.phase ≠ phaseInstall ∧ s.phase ≠ phaseBoot then
    .error ("phase must be ".toList ++ lib.quote phaseInstall ++ " or ".toList ++ lib.quote phaseBoot ++
      ", got ".toList ++ lib.quote s.phase)
  else if s.cpus < 1 then .error "cpus must be at least 1".toList
  else if s.memoryMiB < 1 then .error "memory must be at least 1 MiB".toList
  else if s.phase = phaseInstall ∧ s.uki = [] then .error "install phase needs a UKI".toList
  else if s.phase = phaseInstall ∧ s.installer = [] then .error "install phase needs the installer DDI".toList
  else if s.target = [] then .error "target disk is required".toList
  else if s.vsockCID.toNat < minCID ∨ maxCID < s.vsockCID.toNat then
    .error ("vsock cid must be in ".toList ++ itoa minCID ++ "..".toList ++ itoa maxCID ++ ", got ".toList ++
      itoa s.vsockCID.toNat)
  else if s.ovmfCode = [] ∨ s.ovmfVars = [] then .error "OVMF code and vars paths are required".toList
  else if s.serialLog = [] then .error "serial log path is required".toList
  else if s.qmpSocket = [] then .error "QMP socket path is required".toList
  else if maxUnixSocketPath < s.qmpSocket.length then
    .error ("QMP socket path exceeds ".toList ++ itoa maxUnixSocketPath ++ " bytes; use a shorter state dir".toList)
  else if maxUnixSocketPath < s.tpmSocket.length then
    .error ("TPM socket path exceeds ".toList ++ itoa maxUnixSocketPath ++ " bytes; use a shorter state dir".toList)
  else .ok ()

def validate (s : Spec) : Except Text Unit := do
  validateFields lib s
  let serials := if s.phase = phaseInstall then [serialInstaller, serialTarget] else [serialTarget]
  let _ ← s.extraDrives.foldlM (fun seen d => validateDrive lib d seen) serials
  let _ ← s.netdevs.foldlM (fun seen n => validateNetdev lib n seen) []
  s.credentials.keys.forM (validateCredentialName lib)
  if '\n' ∈ s.kernelCmdlineExtra ∨ '\x00' ∈ s.kernelCmdlineExtra then
    .error "kernel cmdline extra must be a single line".toList
  else .ok ()

end validate

/-! The arguments. -/
section command
variable (lib : Golib)

def escapeOption (v : Text) : Text := escape ',' v

def decimal (n : Int) : Text := if n < 0 then '-' :: itoa n.natAbs else itoa n.natAbs

def driveArgs (d : Drive) (bootindex : Int) : List Text :=
  let format := if d.format = [] then "raw".toList else d.format
  let drive := "if=none,id=".toList ++ d.serial ++ ",format=".toList ++ format ++ ",file=".toList ++
    escapeOption d.path ++ if d.readOnly then ",readonly=on".toList else ",discard=unmap".toList
  let dev := "virtio-blk-pci,drive=".toList ++ d.serial ++ ",serial=".toList ++ d.serial ++
    if 0 ≤ bootindex then ",bootindex=".toList ++ decimal bootindex else []
  ["-drive".toList, drive, "-device".toList, dev]

def netdevArgs (n : Netdev) : List Text :=
  [netdevFlag, n.backend ++ ",id=".toList ++ n.id,
    "-device".toList, "virtio-net-pci,netdev=".toList ++ n.id ++ ",mac=".toList ++ n.mac]

def orDefault (v default : Text) : Text := if v = [] then default else v

def smbiosType1 (s : Spec) : Text :=
  "type=1,manufacturer=".toList ++ escapeOption (orDefault s.smbios.manufacturer defaultManufacturer) ++
    ",product=".toList ++ escapeOption (orDefault s.smbios.product defaultProduct) ++
    (if s.smbios.version ≠ [] then ",version=".toList ++ escapeOption s.smbios.version else []) ++
    ",serial=".toList ++ escapeOption (orDefault s.smbios.serial s.id)

def renderCredential (name v : Text) : Text :=
  if lib.printable v then credentialPrefixText ++ name ++ '=' :: v
  else credentialBinaryPrefixText ++ name ++ '=' :: lib.base64 v

def renderCredentials (creds : GoMap Text Text) : List Text :=
  (creds.keys.insertionSort (· ≤ ·)).map fun n => renderCredential lib n ((creds.get n).getD [])

def smbiosArgs (value : Text) : List Text := ["-smbios".toList, "type=11,value=".toList ++ escapeOption value]

def machineArgs (s : Spec) : List Text :=
  ["-name".toList, "guest=".toList ++ escapeOption s.id,
    "-machine".toList, "q35".toList,
    "-accel".toList, "kvm".toList,
    "-cpu".toList, "host".toList,
    "-smp".toList, decimal s.cpus,
    "-m".toList, decimal s.memoryMiB ++ ['M'],
    "-nodefaults".toList,
    "-display".toList, "none".toList,
    "-serial".toList, "file:".toList ++ escapeOption s.serialLog,
    "-qmp".toList, "unix:".toList ++ escapeOption s.qmpSocket ++ ",server=on,wait=off".toList,
    "-drive".toList, "if=pflash,format=raw,unit=0,readonly=on,file=".toList ++ escapeOption s.ovmfCode,
    "-drive".toList, "if=pflash,format=raw,unit=1,file=".toList ++ escapeOption s.ovmfVars]

def installArgs (s : Spec) : List Text :=
  if s.phase = phaseInstall then
    ["-kernel".toList, s.uki] ++ driveArgs { path := s.installer, serial := serialInstaller, readOnly := true } (-1)
  else []

def tpmArgs (s : Spec) : List Text :=
  if s.tpmSocket ≠ [] then
    ["-chardev".toList, "socket,id=chrtpm,path=".toList ++ escapeOption s.tpmSocket,
      "-tpmdev".toList, "emulator,id=tpm0,chardev=chrtpm".toList,
      "-device".toList, "tpm-crb,tpmdev=tpm0".toList]
  else []

def args (s : Spec) : List Text :=
  machineArgs s ++ installArgs s ++
  driveArgs { path := s.target, serial := serialTarget } (if s.phase = phaseInstall then -1 else 0) ++
  s.extraDrives.flatMap (fun d => driveArgs d (-1)) ++ s.netdevs.flatMap netdevArgs ++
  ["-device".toList, "vhost-vsock-pci,id=vsock0,guest-cid=".toList ++ itoa s.vsockCID.toNat] ++
  tpmArgs s ++
  ["-smbios".toList, smbiosType1 s] ++
  (renderCredentials lib s.credentials).flatMap smbiosArgs ++
  (if s.kernelCmdlineExtra ≠ [] then smbiosArgs (cmdlineExtraPrefixText ++ s.kernelCmdlineExtra) else []) ++
  if s.noReboot then ["-no-reboot".toList] else []

def command (s : Spec) : Except Text (List Text) := do
  validate lib s
  return args lib s

end command

/-! How QEMU reads them: a flag takes the next argument, an option ends at an undoubled comma. -/

/-- An option: the one without a name that some flags take first, a name with its value, or a name alone. -/
inductive Opt where
  | positional (value : Text)
  | pair (key value : Text)
  | flag (key : Text)
deriving DecidableEq

def Opt.text : Opt → Text
  | .positional v => v
  | .pair k v => k ++ '=' :: v
  | .flag k => k

def cut (o : Text) : Opt :=
  match o.dropWhile (· ≠ '=') with
  | _ :: v => .pair (o.takeWhile (· ≠ '=')) v
  | [] => .flag o

def positionalFlags : List Text := ["-qmp".toList, netdevFlag, "-device".toList, "-chardev".toList]

def optionFlags : List Text := ["-name".toList, "-drive".toList, "-smbios".toList] ++ positionalFlags

def plainFlags : List Text := ["-nodefaults".toList, "-no-reboot".toList]

def readOptions (flag value : Text) : List Opt :=
  match options ',' value with
  | [] => []
  | o :: os => (if flag ∈ positionalFlags then .positional o else cut o) :: os.map cut

def reading : List Text → List (Text × List Opt)
  | [] => []
  | [_] => []
  | flag :: value :: rest =>
    if flag ∈ plainFlags then reading (value :: rest)
    else if flag ∈ optionFlags then (flag, readOptions flag value) :: reading rest
    else reading rest

def complete : List Text → Bool
  | [] => true
  | [flag] => flag ∈ plainFlags
  | flag :: value :: rest => if flag ∈ plainFlags then complete (value :: rest) else complete rest

/-! What the arguments are to say. -/

def pair (key : String) (value : Text) : Opt := .pair key.toList value

def driveOptions (d : Drive) (bootindex : Int) : List (Text × List Opt) :=
  [("-drive".toList, [pair "if" "none".toList, pair "id" d.serial, pair "format" (orDefault d.format "raw".toList),
      pair "file" d.path] ++ [if d.readOnly then pair "readonly" "on".toList else pair "discard" "unmap".toList]),
    ("-device".toList, [.positional "virtio-blk-pci".toList, pair "drive" d.serial, pair "serial" d.serial] ++
      if 0 ≤ bootindex then [pair "bootindex" (decimal bootindex)] else [])]

def netdevOptions (n : Netdev) : List (Text × List Opt) :=
  [(netdevFlag, readOptions netdevFlag n.backend ++ [pair "id" n.id]),
    ("-device".toList, [.positional "virtio-net-pci".toList, pair "netdev" n.id, pair "mac" n.mac])]

def smbiosOptions (value : Text) : List (Text × List Opt) :=
  [("-smbios".toList, [pair "type" "11".toList, pair "value" value])]

def intended (lib : Golib) (s : Spec) : List (Text × List Opt) :=
  [("-name".toList, [pair "guest" s.id]),
    ("-qmp".toList, [.positional ("unix:".toList ++ s.qmpSocket), pair "server" "on".toList, pair "wait" "off".toList]),
    ("-drive".toList, [pair "if" "pflash".toList, pair "format" "raw".toList, pair "unit" "0".toList,
      pair "readonly" "on".toList, pair "file" s.ovmfCode]),
    ("-drive".toList, [pair "if" "pflash".toList, pair "format" "raw".toList, pair "unit" "1".toList,
      pair "file" s.ovmfVars])] ++
  (if s.phase = phaseInstall then
    driveOptions { path := s.installer, serial := serialInstaller, readOnly := true } (-1) else []) ++
  driveOptions { path := s.target, serial := serialTarget } (if s.phase = phaseInstall then -1 else 0) ++
  s.extraDrives.flatMap (fun d => driveOptions d (-1)) ++ s.netdevs.flatMap netdevOptions ++
  [("-device".toList, [.positional "vhost-vsock-pci".toList, pair "id" "vsock0".toList,
    pair "guest-cid" (itoa s.vsockCID.toNat)])] ++
  (if s.tpmSocket ≠ [] then
    [("-chardev".toList, [.positional "socket".toList, pair "id" "chrtpm".toList, pair "path" s.tpmSocket]),
      ("-device".toList, [.positional "tpm-crb".toList, pair "tpmdev" "tpm0".toList])] else []) ++
  [("-smbios".toList, [pair "type" "1".toList,
      pair "manufacturer" (orDefault s.smbios.manufacturer defaultManufacturer),
      pair "product" (orDefault s.smbios.product defaultProduct)] ++
      (if s.smbios.version ≠ [] then [pair "version" s.smbios.version] else []) ++
      [pair "serial" (orDefault s.smbios.serial s.id)])] ++
  (renderCredentials lib s.credentials).flatMap smbiosOptions ++
  if s.kernelCmdlineExtra ≠ [] then smbiosOptions (cmdlineExtraPrefixText ++ s.kernelCmdlineExtra) else []

section read
variable {flag : Text} {opts : List Opt}

theorem reading_append {a : List Text} (h : complete a) (b : List Text) : reading (a ++ b) = reading a ++ reading b := by
  fun_induction complete a with
  | case1 => rfl
  | case2 flag =>
    have hflag : flag ∈ plainFlags := by simpa using h
    cases b with
    | nil => rfl
    | cons value rest =>
      exact show reading (flag :: value :: rest) = reading (value :: rest) by rw [reading, if_pos hflag]
  | case3 flag value rest hflag ih =>
    rw [cons_append, cons_append, reading, if_pos hflag, reading, if_pos hflag]
    exact ih h
  | case4 flag value rest hflag ih =>
    rw [cons_append, cons_append, reading, if_neg hflag, reading, if_neg hflag, ih h]
    split
    · rfl
    · rfl

theorem complete_append {a b : List Text} (ha : complete a) (hb : complete b) : complete (a ++ b) := by
  fun_induction complete a with
  | case1 => exact hb
  | case2 flag =>
    have hflag : flag ∈ plainFlags := by simpa using ha
    cases b with
    | nil => simpa [complete] using hflag
    | cons value rest =>
      rw [singleton_append, complete, if_pos hflag]
      exact hb
  | case3 flag value rest hflag ih =>
    rw [cons_append, cons_append, complete, if_pos hflag]
    exact ih ha
  | case4 flag value rest hflag ih =>
    rw [cons_append, cons_append, complete, if_neg hflag]
    exact ih ha

theorem complete_flatMap {f : α → List Text} {l : List α} (h : ∀ x ∈ l, complete (f x)) :
    complete (l.flatMap f) := by
  induction l with
  | nil => rfl
  | cons x l ih =>
    exact complete_append (h x mem_cons_self) (ih (forall_mem_cons.1 h).2)

theorem reading_flatMap {f : α → List Text} {l : List α} (h : ∀ x ∈ l, complete (f x)) :
    reading (l.flatMap f) = l.flatMap fun x => reading (f x) := by
  induction l with
  | nil => rfl
  | cons x l ih =>
    rw [flatMap_cons, reading_append (h x mem_cons_self), ih (forall_mem_cons.1 h).2]
    rfl

theorem flatMap_eq_iff {β : Type} {f g : α → List β} {l : List α} (h : ∀ x, (f x).length = (g x).length) :
    l.flatMap f = l.flatMap g ↔ ∀ x ∈ l, f x = g x := by
  refine ⟨fun heq => ?_, flatMap_congr⟩
  induction l with
  | nil => exact fun _ hx => by cases hx
  | cons x l ih =>
    obtain ⟨hx, hl⟩ := append_inj heq (h x)
    intro y hy
    rcases mem_cons.1 hy with rfl | hy
    · exact hx
    · exact ih hl y hy

theorem cut_pair {key : Text} (h : '=' ∉ key) (v : Text) : cut (key ++ '=' :: v) = .pair key v := by
  have hkey : ∀ c ∈ key, decide (c ≠ '=') = true := fun c hc => decide_eq_true fun heq => h (heq ▸ hc)
  have htake : (key ++ '=' :: v).takeWhile (· ≠ '=') = key := by
    rw [takeWhile_append_of_pos hkey]
    simp
  have hdrop : (key ++ '=' :: v).dropWhile (· ≠ '=') = '=' :: v := by
    rw [dropWhile_append_of_pos hkey]
    simp
  unfold cut
  rw [htake, hdrop]

def Opt.named : Opt → Bool
  | .pair k _ => k ≠ [] && k.head? ≠ some ',' && '=' ∉ k
  | _ => false

def fit (flag : Text) : List Opt → Bool
  | [] => false
  | .positional _ :: os => flag ∈ positionalFlags && os.all Opt.named
  | o :: os => flag ∉ positionalFlags && o.named && os.all Opt.named

theorem cut_text (h : o.named = true) : cut o.text = o := by
  cases o with
  | pair k v =>
    simp only [Opt.named, Bool.and_eq_true, decide_eq_true_eq] at h
    exact cut_pair h.2 v
  | positional v => cases h
  | flag k => cases h

theorem text_proper (h : o.named = true) : o.text ≠ [] ∧ o.text.head? ≠ some ',' := by
  cases o with
  | pair k v =>
    simp only [Opt.named, Bool.and_eq_true, decide_eq_true_eq] at h
    cases k with
    | nil => exact absurd rfl h.1.1
    | cons c k => exact ⟨by simp [Opt.text], h.1.2⟩
  | positional v => cases h
  | flag k => cases h

theorem readOptions_cons {o : Text} {os : List Opt} (h : os.all Opt.named = true) :
    readOptions flag (render ',' (o :: os.map Opt.text)) =
      (if flag ∈ positionalFlags then .positional o else cut o) :: os := by
  have hnamed := all_eq_true.1 h
  have hproper : Proper ',' (os.map Opt.text) := by
    refine proper_of_forall fun x hx => ?_
    obtain ⟨y, hy, rfl⟩ := mem_map.1 hx
    exact text_proper (hnamed y hy)
  have hos : (os.map Opt.text).map cut = os := by
    rw [map_map]
    exact (map_congr_left fun x hx => cut_text (hnamed x hx)).trans (map_id os)
  unfold readOptions
  rw [options_render _ hproper]
  simp only [hos]

theorem readOptions_render {value : Text} (h : value = render ',' (opts.map Opt.text)) (hfit : fit flag opts = true) :
    readOptions flag value = opts := by
  rw [h]
  unfold fit at hfit
  split at hfit
  · cases hfit
  · obtain ⟨hflag, hos⟩ := Bool.and_eq_true_iff.1 hfit
    rw [map_cons, readOptions_cons hos, if_pos (of_decide_eq_true hflag)]
    rfl
  · obtain ⟨hfirst, hos⟩ := Bool.and_eq_true_iff.1 hfit
    obtain ⟨hflag, hnamed⟩ := Bool.and_eq_true_iff.1 hfirst
    rw [map_cons, readOptions_cons hos, if_neg (of_decide_eq_true hflag), cut_text hnamed]

theorem length_readOptions (flag value : Text) : (readOptions flag value).length = (options ',' value).length := by
  unfold readOptions
  split
  · rename_i h
    rw [h]
    rfl
  · rename_i h
    rw [h, length_cons, length_map, length_cons]

def Opt.written (o : Opt) : Text := escape ',' o.text

theorem written_pair (k : String) (v : Text) :
    (pair k v).written = escape ',' k.toList ++ '=' :: escape ',' v := by
  rw [Opt.written, pair, Opt.text, escape_append, escape_cons_of_ne (by decide)]

theorem render_single (o : Opt) : render ',' ([o].map Opt.text) = o.written := by
  simp [render_cons, Opt.written]

theorem render_more (o o' : Opt) (os : List Opt) :
    render ',' ((o :: o' :: os).map Opt.text) = o.written ++ ',' :: render ',' ((o' :: os).map Opt.text) := by
  rfl

end read

section validated
variable {lib : Golib} {s : Spec}

theorem notMem_of_serialPattern (h : serialPattern t = true) : ',' ∉ t := by
  intro hmem
  have hall : t.all isIdChar = true := (Bool.and_eq_true_iff.1 h).2
  exact absurd (all_eq_true.1 hall ',' hmem) (by decide)

theorem xtoi2_comma {e : Char} (h : xtoi2 t e = true) (he : e ≠ ',') {j : Nat} (hj : j < 3) :
    t[j]? ≠ some ',' := by
  intro hc
  simp only [xtoi2, Bool.and_eq_true, Bool.or_eq_true, decide_eq_true_eq, beq_iff_eq] at h
  obtain ⟨⟨hsep, -⟩, hhex⟩ := h
  by_cases hj2 : j < 2
  · have hmem : ',' ∈ t.take 2 := mem_of_getElem? (by rw [getElem?_take_of_lt hj2, hc])
    exact absurd (all_eq_true.1 hhex ',' hmem) (by decide)
  · obtain rfl : j = 2 := by omega
    rcases hsep with hlen | hsep
    · cases (getElem?_eq_none hlen).symm.trans hc
    · exact he (Option.some.inj (hsep.symm.trans hc))

theorem notMem_of_parseMAC {n : Nat} (h : parseMAC t = some n) : ',' ∉ t := by
  intro hmem
  obtain ⟨j, hj⟩ := mem_iff_getElem?.1 hmem
  have hlen : j < t.length := (List.getElem?_eq_some_iff.1 hj).1
  unfold parseMAC at h
  split at h
  · cases h
  split at h
  · rename_i hsep
    have he : t.getD 2 ':' ≠ ',' := by
      rcases hsep with hsep | hsep <;> rw [getD_eq_getElem?_getD, hsep] <;> decide
    simp only at h
    split at h
    · cases h
    split at h
    · rename_i hall
      have hi := all_eq_true.1 hall (j / 3) (mem_range.2 (by omega))
      refine xtoi2_comma hi he (Nat.mod_lt j (by decide)) ?_
      rw [getElem?_drop, Nat.div_add_mod, hj]
    · cases h
  split at h
  · simp only at h
    split at h
    · cases h
    split at h
    · rename_i hall
      have hi := all_eq_true.1 hall (j / 5) (mem_range.2 (by omega))
      obtain ⟨hfirst, hsecond⟩ := Bool.and_eq_true_iff.1 hi
      by_cases hr : j % 5 < 2
      · refine xtoi2_comma hfirst (by decide) (hr.trans (by decide)) ?_
        rw [getElem?_take_of_lt hr, getElem?_drop, Nat.div_add_mod, hj]
      · refine xtoi2_comma hsecond (j := j % 5 - 2) (by decide) (by omega) ?_
        rw [getElem?_drop, show 5 * (j / 5) + 2 + (j % 5 - 2) = j by omega, hj]
    · cases h
  · cases h

theorem foldlM_ok {α σ : Type} {f : σ → α → Except Text σ} {P : α → Prop} (hf : ∀ s a s', f s a = .ok s' → P a)
    {l : List α} {s s' : σ} (h : l.foldlM f s = .ok s') : ∀ a ∈ l, P a := by
  induction l generalizing s with
  | nil => simp
  | cons a l ih =>
    rw [foldlM_cons] at h
    cases hfa : f s a with
    | error e =>
      rw [hfa] at h
      cases h
    | ok s₁ =>
      rw [hfa] at h
      intro x hx
      rcases mem_cons.1 hx with rfl | hx
      · exact hf s x s₁ hfa
      · exact ih h x hx

theorem validateDrive_ok (h : validateDrive lib d seen = .ok seen') :
    ',' ∉ d.serial ∧ ',' ∉ orDefault d.format "raw".toList := by
  unfold validateDrive at h
  split at h
  · cases h
  split at h
  · cases h
  rename_i hformat
  split at h
  · cases h
  rename_i hserial
  simp only [not_or, Bool.not_eq_false] at hserial
  refine ⟨notMem_of_serialPattern hserial.2.2, ?_⟩
  unfold orDefault
  split
  · decide
  · rename_i hne
    have hmem : d.format ∈ driveFormats := by
      by_contra hnot
      exact hformat ⟨hne, hnot⟩
    have hformats : ∀ f ∈ driveFormats, ',' ∉ f := by decide
    exact hformats _ hmem

theorem validateNetdev_ok (h : validateNetdev lib n seen = .ok seen') :
    ',' ∉ n.id ∧ ',' ∉ n.mac := by
  unfold validateNetdev at h
  split at h
  · cases h
  rename_i hid
  split at h
  · cases h
  split at h
  · cases h
  split at h
  · cases h
  split at h
  · cases h
  rename_i hmac
  simp only [not_or, Bool.not_eq_false] at hid
  exact ⟨notMem_of_serialPattern hid.2, notMem_of_parseMAC (not_not.1 hmac)⟩

theorem bind_ok {α β : Type} {x : Except Text α} {f : α → Except Text β} {r : β} (h : x >>= f = .ok r) :
    ∃ a, x = .ok a ∧ f a = .ok r := by
  cases x with
  | error e => cases h
  | ok a => exact ⟨a, rfl, h⟩

theorem validate_ok (h : validate lib s = .ok ()) :
    (∀ d ∈ s.extraDrives, ',' ∉ d.serial ∧ ',' ∉ orDefault d.format "raw".toList) ∧
    ∀ n ∈ s.netdevs, ',' ∉ n.id ∧ ',' ∉ n.mac := by
  obtain ⟨-, -, h⟩ := bind_ok h
  obtain ⟨_, hdrives, h⟩ := bind_ok h
  obtain ⟨_, hnetdevs, -⟩ := bind_ok h
  exact ⟨fun d hd => foldlM_ok (fun _ _ _ hok => validateDrive_ok hok) hdrives d hd,
    fun n hn => foldlM_ok (fun _ _ _ hok => validateNetdev_ok hok) hnetdevs n hn⟩

end validated

section rendered
variable {lib : Golib} {s : Spec}

theorem driveArgs_complete (d : Drive) (bootindex : Int) : complete (driveArgs d bootindex) = true := rfl

theorem netdevArgs_complete (n : Netdev) : complete (netdevArgs n) = true := rfl

theorem smbiosArgs_complete (v : Text) : complete (smbiosArgs v) = true := rfl

theorem notMem_itoa (n : Nat) : ',' ∉ itoa n := fun h => itoa_digit h rfl

theorem notMem_decimal (n : Int) : ',' ∉ decimal n := by
  unfold decimal
  split
  · exact fun h => notMem_itoa _ ((mem_cons.1 h).resolve_left (by decide))
  · exact notMem_itoa _

theorem reading_driveArgs (bootindex : Int) (hs : ',' ∉ d.serial) (hf : ',' ∉ orDefault d.format "raw".toList) :
    reading (driveArgs d bootindex) = driveOptions d bootindex := by
  refine congrArg₂ (fun x y => [("-drive".toList, x), ("-device".toList, y)])
    (readOptions_render ?_ ?_) (readOptions_render ?_ ?_)
  · unfold orDefault at hf ⊢
    cases d.readOnly <;>
    · simp only [cons_append, nil_append, render_more, render_single, written_pair, escape_of_notMem hs,
        escape_of_notMem hf, append_assoc, Bool.false_eq_true, if_false, if_true]
      rfl
  · cases d.readOnly <;> rfl
  · by_cases hb : 0 ≤ bootindex <;>
    · simp only [hb, if_true, if_false, cons_append, nil_append, render_more, render_single, written_pair,
        escape_of_notMem hs, escape_of_notMem (notMem_decimal bootindex), append_assoc, append_nil]
      rfl
  · by_cases hb : 0 ≤ bootindex <;>
    · simp only [hb, if_true, if_false]
      rfl

theorem netdev_options (hid : ',' ∉ n.id) : readOptions netdevFlag (n.backend ++ ",id=".toList ++ n.id) =
    readOptions netdevFlag n.backend ++ [pair "id" n.id] ↔ Closed ',' n.backend = true := by
  have hcomma : ',' ∉ "id=".toList ++ n.id := by
    rw [mem_append]
    exact fun h => h.elim (fun h => absurd h (by decide)) hid
  have htext : n.backend ++ ",id=".toList ++ n.id = n.backend ++ ',' :: ("id=".toList ++ n.id) :=
    append_assoc ..
  have hone : options ',' ("id=".toList ++ n.id) = ["id=".toList ++ n.id] := by
    rw [← escape_of_notMem hcomma, options_escape, escape_of_notMem hcomma]
  constructor
  · intro h
    by_contra hopen
    have hlength := length_options_append_open (Bool.not_eq_true _ ▸ hopen) ("id=".toList ++ n.id)
    have heq := congrArg length h
    rw [length_append, length_readOptions, length_readOptions, htext] at heq
    rw [hone] at hlength
    simp only [length_singleton] at hlength heq
    omega
  · intro hclosed
    have hhead : ("id=".toList ++ n.id).head? ≠ some ',' := show some 'i' ≠ some ',' by decide
    have hkey : '=' ∉ "id".toList := by decide
    have hcut : cut ("id=".toList ++ n.id) = pair "id" n.id := cut_pair hkey n.id
    unfold readOptions
    rw [htext, options_append_separated hclosed hhead, hone]
    cases hb : options ',' n.backend with
    | nil => exact absurd hb (options_ne_nil ',' n.backend)
    | cons o os => simp only [cons_append, map_append, map_cons, map_nil, hcut]

theorem reading_netdevArgs (hid : ',' ∉ n.id) (hmac : ',' ∉ n.mac) :
    reading (netdevArgs n) = netdevOptions n ↔ Closed ',' n.backend = true := by
  have hdevice : readOptions "-device".toList ("virtio-net-pci,netdev=".toList ++ n.id ++ ",mac=".toList ++ n.mac) =
      [.positional "virtio-net-pci".toList, pair "netdev" n.id, pair "mac" n.mac] := by
    refine readOptions_render ?_ rfl
    simp only [render_more, render_single, written_pair, escape_of_notMem hid, escape_of_notMem hmac, append_assoc]
    rfl
  rw [← netdev_options hid]
  change [(netdevFlag, _), ("-device".toList, readOptions _ _)] = [(netdevFlag, _), ("-device".toList, _)] ↔ _
  rw [hdevice]
  simp only [cons.injEq, Prod.mk.injEq, true_and, and_true]

theorem reading_smbiosArgs (v : Text) : reading (smbiosArgs v) = smbiosOptions v := by
  refine congrArg (fun x => [("-smbios".toList, x)]) (readOptions_render ?_ rfl)
  simp only [render_more, render_single, written_pair]
  rfl

theorem reading_smbiosType1 (s : Spec) : reading ["-smbios".toList, smbiosType1 s] =
    [("-smbios".toList, [pair "type" "1".toList,
      pair "manufacturer" (orDefault s.smbios.manufacturer defaultManufacturer),
      pair "product" (orDefault s.smbios.product defaultProduct)] ++
      (if s.smbios.version ≠ [] then [pair "version" s.smbios.version] else []) ++
      [pair "serial" (orDefault s.smbios.serial s.id)])] := by
  refine congrArg (fun x => [("-smbios".toList, x)]) (readOptions_render ?_ ?_)
  · unfold smbiosType1
    by_cases hv : s.smbios.version = [] <;>
    · simp only [hv, ne_eq, not_true, not_false_eq_true, if_true, if_false, cons_append, nil_append,
        render_more, render_single, written_pair, append_assoc, append_nil]
      rfl
  · by_cases hv : s.smbios.version = [] <;>
    · simp only [hv, ne_eq, not_true, not_false_eq_true, if_true, if_false]
      rfl

theorem reading_machineArgs (s : Spec) : reading (machineArgs s) =
    [("-name".toList, [pair "guest" s.id]),
      ("-qmp".toList, [.positional ("unix:".toList ++ s.qmpSocket), pair "server" "on".toList,
        pair "wait" "off".toList]),
      ("-drive".toList, [pair "if" "pflash".toList, pair "format" "raw".toList, pair "unit" "0".toList,
        pair "readonly" "on".toList, pair "file" s.ovmfCode]),
      ("-drive".toList, [pair "if" "pflash".toList, pair "format" "raw".toList, pair "unit" "1".toList,
        pair "file" s.ovmfVars])] := by
  change [("-name".toList, readOptions _ _), ("-qmp".toList, readOptions _ _),
    ("-drive".toList, readOptions _ _), ("-drive".toList, readOptions _ _)] = _
  simp only [cons.injEq, Prod.mk.injEq, true_and, and_true]
  refine ⟨readOptions_render ?_ rfl, readOptions_render ?_ rfl, readOptions_render ?_ rfl, readOptions_render ?_ rfl⟩
  all_goals
    simp only [render_more, render_single, written_pair, append_assoc]
    rfl

theorem reading_tpmArgs (s : Spec) : reading (tpmArgs s) = if s.tpmSocket ≠ [] then
    [("-chardev".toList, [.positional "socket".toList, pair "id" "chrtpm".toList, pair "path" s.tpmSocket]),
      ("-device".toList, [.positional "tpm-crb".toList, pair "tpmdev" "tpm0".toList])] else [] := by
  unfold tpmArgs
  split
  · refine congrArg (fun x => [("-chardev".toList, x), _]) (readOptions_render ?_ rfl)
    simp only [render_more, render_single, written_pair]
    rfl
  · rfl

theorem reading_vsock (s : Spec) :
    reading ["-device".toList, "vhost-vsock-pci,id=vsock0,guest-cid=".toList ++ itoa s.vsockCID.toNat] =
      [("-device".toList, [.positional "vhost-vsock-pci".toList, pair "id" "vsock0".toList,
        pair "guest-cid" (itoa s.vsockCID.toNat)])] := by
  refine congrArg (fun x => [("-device".toList, x)]) (readOptions_render ?_ rfl)
  simp only [render_more, render_single, written_pair, escape_of_notMem (notMem_itoa _)]
  rfl

theorem reading_installArgs (s : Spec) : reading (installArgs s) = if s.phase = phaseInstall then
    driveOptions { path := s.installer, serial := serialInstaller, readOnly := true } (-1) else [] := by
  have hinstaller := reading_driveArgs (d := { path := s.installer, serial := serialInstaller, readOnly := true }) (-1)
    (show ',' ∉ serialInstaller by decide) (show ',' ∉ "raw".toList by decide)
  unfold installArgs
  split
  · rw [reading_append (by rfl), hinstaller]
    rfl
  · rfl

theorem installArgs_complete (s : Spec) : complete (installArgs s) = true := by
  unfold installArgs
  split
  · rfl
  · rfl

theorem tpmArgs_complete (s : Spec) : complete (tpmArgs s) = true := by
  unfold tpmArgs
  split
  · rfl
  · rfl

theorem reading_args (hd : ∀ d ∈ s.extraDrives, ',' ∉ d.serial ∧ ',' ∉ orDefault d.format "raw".toList)
    (hn : ∀ n ∈ s.netdevs, ',' ∉ n.id ∧ ',' ∉ n.mac) :
    reading (args lib s) = intended lib s ↔ ∀ n ∈ s.netdevs, Closed ',' n.backend = true := by
  have hdrives : reading (s.extraDrives.flatMap fun d => driveArgs d (-1)) =
      s.extraDrives.flatMap fun d => driveOptions d (-1) := by
    rw [reading_flatMap fun d _ => driveArgs_complete d (-1)]
    exact flatMap_congr fun d hmem => reading_driveArgs (-1) (hd d hmem).1 (hd d hmem).2
  have hnetdevs : s.netdevs.flatMap (fun n => reading (netdevArgs n)) = s.netdevs.flatMap netdevOptions ↔
      ∀ n ∈ s.netdevs, Closed ',' n.backend = true := by
    have hlength : ∀ n, (reading (netdevArgs n)).length = (netdevOptions n).length := fun _ => rfl
    rw [flatMap_eq_iff hlength]
    exact forall₂_congr fun n hmem => reading_netdevArgs (hn n hmem).1 (hn n hmem).2
  have hcredentials : reading ((renderCredentials lib s.credentials).flatMap smbiosArgs) =
      (renderCredentials lib s.credentials).flatMap smbiosOptions := by
    rw [reading_flatMap fun v _ => smbiosArgs_complete v]
    exact flatMap_congr fun v _ => reading_smbiosArgs v
  have htarget := reading_driveArgs (d := { path := s.target, serial := serialTarget })
    (if s.phase = phaseInstall then -1 else 0) (show ',' ∉ serialTarget by decide) (show ',' ∉ "raw".toList by decide)
  have hextra : reading ((if s.kernelCmdlineExtra ≠ [] then
      smbiosArgs (cmdlineExtraPrefixText ++ s.kernelCmdlineExtra) else []) ++
      if s.noReboot then ["-no-reboot".toList] else []) =
      if s.kernelCmdlineExtra ≠ [] then smbiosOptions (cmdlineExtraPrefixText ++ s.kernelCmdlineExtra) else [] := by
    have hend : reading (if s.noReboot then ["-no-reboot".toList] else []) = [] := by
      split
      · rfl
      · rfl
    split
    · rw [reading_append (smbiosArgs_complete _), hend, reading_smbiosArgs, append_nil]
    · exact hend
  unfold args intended
  simp only [append_assoc]
  rw [reading_append (by rfl), reading_append (installArgs_complete s), reading_append (driveArgs_complete _ _),
    reading_append (complete_flatMap fun d _ => driveArgs_complete d (-1)),
    reading_append (complete_flatMap fun n _ => netdevArgs_complete n), reading_append (by rfl),
    reading_append (tpmArgs_complete s), reading_append (by rfl),
    reading_append (complete_flatMap fun v _ => smbiosArgs_complete v), hextra, reading_machineArgs,
    reading_installArgs, htarget, hdrives, reading_flatMap fun n _ => netdevArgs_complete n, reading_vsock,
    reading_tpmArgs, reading_smbiosType1, hcredentials, ← hnetdevs]
  -- both sides are the same but for the networks
  simp only [append_assoc, append_cancel_left_eq, append_cancel_right_eq]

end rendered

theorem command_options (lib : Golib) (s : Spec) (hv : validate lib s = .ok ()) :
    (∃ args, command lib s = .ok args ∧ reading args = intended lib s) ↔
      ∀ n ∈ s.netdevs, Closed ',' n.backend = true := by
  obtain ⟨hdrives, hnetdevs⟩ := validate_ok hv
  have hcommand : command lib s = .ok (args lib s) := by
    unfold command
    rw [hv]
    rfl
  rw [← reading_args hdrives hnetdevs, hcommand]
  constructor
  · rintro ⟨_, hargs, hread⟩
    obtain rfl := Except.ok.inj hargs
    exact hread
  · exact fun hread => ⟨_, rfl, hread⟩

namespace Sample

def golib : Golib where
  quote t := '"' :: t ++ ['"']
  printable t := t.all (· ≠ '\n')
  base64 t := t.filter (· ≠ '\n')

def spec (backend : Text) : Spec where
  id := "vm,id=0".toList
  phase := phaseBoot
  cpus := 2
  memoryMiB := 1024
  target := "/disks/a,b=c".toList
  netdevs := [⟨"net0".toList, backend, "52:54:00:12:34:56".toList⟩]
  smbios := { version := "1,serial=2".toList }
  credentials := (∅ : GoMap Text Text).insert "firstboot.hostname".toList "vm,0".toList
  vsockCID := 3
  ovmfCode := "/code".toList
  ovmfVars := "/vars".toList
  serialLog := "/log".toList
  qmpSocket := "/qmp,sock".toList

def openBackend : Text := "user,hostname=vm,".toList

end Sample
open Sample

theorem command_options_commas : ∃ args, command golib (spec "user,hostname=a,,b".toList) = .ok args ∧
    reading args = intended golib (spec "user,hostname=a,,b".toList) :=
  (command_options _ _ (by rfl)).2 (by decide +kernel)

theorem command_merges_id : ∃ args, command golib (spec openBackend) = .ok args ∧
    (netdevFlag, [.positional "user".toList, pair "hostname" "vm,id=net0".toList]) ∈ reading args :=
  ⟨args golib (spec openBackend), by rfl, by decide +kernel⟩

end VmManager.Runtime.Command
