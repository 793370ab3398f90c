import VmManager.Data.GoMap

/-! The QMP client: one reader dispatches what the server sends, and any number of Execute calls wait
for the replies to their commands. A step is a critical section, a channel operation or a call to the
connection. Replies are numbered in the order the reader looks their ids up, which the source does not
keep, and so is where a call stood in that order when it registered. Ids are numbers without a bound: the
uint64 of the source is the same for the first 2^64 commands of a connection. -/
namespace VmManager.Runtime.Qmp
open Function List Option Nat GoMap

structure Error where
  cls : String
  desc : String
deriving DecidableEq, Repr

structure Response where
  ret : String := ""
  err : Option Error := none
deriving DecidableEq, Repr

structure Message where
  event : String := ""
  id : Option Nat := none
  ret : String := ""
  error : Option Error := none
deriving DecidableEq, Repr

/-- The id of a call, the channel it made, and how many replies had come when it registered. -/
structure Ticket where
  id : Nat
  ch : Nat
  since : Nat
deriving DecidableEq, Repr

inductive Phase where
  | begun
  | checked
  | registered (r : Ticket)
  | encoded (r : Ticket)
  | waiting (r : Ticket)
  /-- The connection had ended when the call waited. -/
  | ended (r : Ticket)
  /-- The call gives its id up and returns the error. -/
  | failed (r : Ticket) (err : String)
  | returned (r : Option Ticket) (reply : Option Response) (err : Option String)
deriving DecidableEq, Repr

structure Call where
  command : String
  /-- The caller wants the return value. -/
  result : Bool := false
  phase : Phase := .begun

inductive Reader where
  | decoding
  | replying (ch : Nat) (resp : Response)
  | closing
  | closingEvents
  | stopped
deriving DecidableEq, Repr

def eventBuffer : Nat := 64
def replyBuffer : Nat := 1

structure QMP where
  pending : GoMap Nat Nat := ∅
  nextID : Nat := 0
  chans : Nat → List Response := fun _ => []
  nextChan : Nat := 0
  events : List String := []
  dropped : Nat := 0
  reader : Reader := .decoding
  err : Option String := none
  done : Bool := false
  eventsClosed : Bool := false
  calls : Nat → Option Call := fun _ => none
  nextCall : Nat := 0
  /-- The replies whose ids the reader has looked up, oldest first. -/
  arrived : List (Nat × Response) := []

/-- What the environment decides: whether encoding or writing fails, which case of a select is taken
and whether the return value can be decoded. -/
inductive Choice where
  | ok
  | err (text : String)
  | reply (undecodable : Option String)
  | ctxDone (text : String)
  | done
deriving DecidableEq, Repr

inductive Move where
  | execute (command : String) (result : Bool)
  | go (t : Nat) (c : Choice)
  | message (m : Message)
  | eof (err : String)
  | read
  | takeEvent
deriving DecidableEq, Repr

def decodeResponse (command : String) (result : Bool) (resp : Response)
    (undecodable : Option String) : Option String :=
  match resp.err with
  | some e => some ("qmp " ++ command ++ ": " ++ e.cls ++ ": " ++ e.desc)
  | none =>
    if result ∧ resp.ret ≠ "" then undecodable.map fun text => "qmp " ++ command ++ ": decode: " ++ text
    else none

namespace QMP
variable (q : QMP)

def closedErr : String :=
  match q.err with
  | none => "use of closed network connection"
  | some err => "connection closed: " ++ err

def setPhase (t : Nat) (call : Call) (phase : Phase) : QMP :=
  { q with calls := update q.calls t (some { call with phase }) }

def execute (command : String) (result : Bool) : QMP :=
  { q with
    calls := update q.calls q.nextCall (some { command, result })
    nextCall := q.nextCall + 1 }

def forget (id : Nat) : QMP := { q with pending := q.pending.erase id }

def register (t : Nat) (call : Call) : QMP :=
  let r : Ticket := ⟨q.nextID + 1, q.nextChan, q.arrived.length⟩
  { q.setPhase t call (.registered r) with
    nextID := q.nextID + 1
    nextChan := q.nextChan + 1
    chans := update q.chans q.nextChan []
    pending := q.pending.insert (q.nextID + 1) q.nextChan }

def take (t : Nat) (call : Call) (r : Ticket) (resp : Response) (rest : List Response)
    (undecodable : Option String) : QMP :=
  { q.setPhase t call
      (.returned r resp (decodeResponse call.command call.result resp undecodable)) with
    chans := update q.chans r.ch rest }

def advance (t : Nat) (call : Call) : Phase → Choice → Option QMP
  | .begun, .ok =>
    if q.done then
      some (q.setPhase t call (.returned none none ("qmp " ++ call.command ++ ": " ++ q.closedErr)))
    else some (q.setPhase t call .checked)
  | .checked, .ok => some (q.register t call)
  | .registered r, .ok => some (q.setPhase t call (.encoded r))
  | .registered r, .err text => some (q.setPhase t call (.failed r ("encode: " ++ text)))
  | .encoded r, .ok => some (q.setPhase t call (.waiting r))
  | .encoded r, .err text => some (q.setPhase t call (.failed r text))
  | .waiting r, .reply undecodable => match q.chans r.ch with
    | resp :: rest => some (q.take t call r resp rest undecodable)
    | [] => none
  | .waiting r, .ctxDone text => some (q.setPhase t call (.failed r text))
  | .waiting r, .done => if q.done then some (q.setPhase t call (.ended r)) else none
  -- The reply is preferred over the end of the connection.
  | .ended r, .reply undecodable => match q.chans r.ch with
    | resp :: rest => some (q.take t call r resp rest undecodable)
    | [] => some (q.setPhase t call (.failed r q.closedErr))
  | .failed r text, .ok =>
    some ((q.forget r.id).setPhase t call
      (.returned r none ("qmp " ++ call.command ++ ": " ++ text)))
  | _, _ => none

def deliver (event : String) : QMP :=
  if q.events.length < eventBuffer then { q with events := q.events ++ [event] }
  else { q with dropped := q.dropped + 1 }

def lookup (id : Nat) (resp : Response) : QMP :=
  { q with
    pending := q.pending.erase id
    arrived := q.arrived ++ [(id, resp)]
    reader := match q.pending.get id with
      | some ch => .replying ch resp
      | none => .decoding }

def dispatch (m : Message) : QMP :=
  if m.event ≠ "" then q.deliver m.event
  else match m.id with
  | some id => q.lookup id ⟨m.ret, m.error⟩
  | none => q

def read : Option QMP :=
  match q.reader with
  | .decoding | .stopped => none
  | .replying ch resp =>
    if (q.chans ch).length < replyBuffer then
      some { q with chans := update q.chans ch (q.chans ch ++ [resp]), reader := .decoding }
    else none
  | .closing => some { q with done := true, reader := .closingEvents }
  | .closingEvents => some { q with eventsClosed := true, reader := .stopped }

def step : Move → Option QMP
  | .execute command result => some (q.execute command result)
  | .go t c => (q.calls t).bind fun call => q.advance t call call.phase c
  | .message m => if q.reader = .decoding then some (q.dispatch m) else none
  | .eof err => if q.reader = .decoding then some { q with err := some err, reader := .closing } else none
  | .read => q.read
  | .takeEvent => match q.events with
    | _ :: rest => some { q with events := rest }
    | [] => none

end QMP

inductive Reachable : QMP → Prop where
  | start : Reachable {}
  | step {q q' : QMP} {m : Move} (h : Reachable q) (hm : q.step m = some q') : Reachable q'

def Phase.ticket : Phase → Option Ticket
  | .begun | .checked => none
  | .registered r | .encoded r | .waiting r | .ended r | .failed r _ => some r
  | .returned r _ _ => r

def Phase.isReturned : Phase → Bool
  | .returned .. => true
  | _ => false

def QMP.First (q : QMP) (r : Ticket) (k : Nat) (resp : Response) : Prop :=
  r.since ≤ k ∧ q.arrived[k]? = some (r.id, resp) ∧ ∀ j x, r.since ≤ j → j < k → q.arrived[j]? = some x → x.1 ≠ r.id

def QMP.Uses (q : QMP) (t k : Nat) : Prop :=
  ∃ call r resp err, q.calls t = some call ∧ call.phase = .returned (some r) (some resp) err ∧ q.First r k resp

def QMP.ticket (q : QMP) (t : Nat) : Option Ticket := (q.calls t).bind fun call => call.phase.ticket

def QMP.returned (q : QMP) (t : Nat) : Bool := (q.calls t).all fun call => call.phase.isReturned

def QMP.Unanswered (q : QMP) (r : Ticket) : Prop := ∀ j x, r.since ≤ j → q.arrived[j]? = some x → x.1 ≠ r.id

/-- Tickets are handed out once, and a channel is on the way of at most one reply: it is pending, or
the reader is about to send on it, or the reply is in it. -/
structure Routed (q : QMP) : Prop where
  fresh : ∀ t, q.nextCall ≤ t → q.calls t = none
  numbered : ∀ t r, q.ticket t = some r → r.id ≤ q.nextID ∧ r.ch < q.nextChan ∧ r.since ≤ q.arrived.length
  once : ∀ t t' r r', q.ticket t = some r → q.ticket t' = some r' → r.id = r'.id ∨ r.ch = r'.ch → t = t'
  pending : ∀ id ch, q.pending.get id = some ch → (∃ t r, q.ticket t = some r ∧
    q.returned t = false ∧ r.id = id ∧ r.ch = ch ∧ q.Unanswered r) ∧ q.chans ch = [] ∧
    ∀ resp, q.reader ≠ .replying ch resp
  buffered : ∀ t r resp rest, q.ticket t = some r → q.chans r.ch = resp :: rest →
    rest = [] ∧ (∃ k, q.First r k resp) ∧ ∀ resp', q.reader ≠ .replying r.ch resp'
  replying : ∀ ch resp, q.reader = .replying ch resp → q.chans ch = [] ∧
    ∃ t r, q.ticket t = some r ∧ r.ch = ch ∧ ∃ k, q.First r k resp
  replied : ∀ t call r resp err, q.calls t = some call → call.phase = .returned r (some resp) err →
    ∃ r' k, r = some r' ∧ q.First r' k resp

variable {q q' : QMP} {t t' : Nat} {call : Call} {r : Ticket} {resp : Response} {phase : Phase}

theorem QMP.First.append {k : Nat} (h : q.First r k resp) (x : Nat × Response)
    (hq : q'.arrived = q.arrived ++ [x]) : q'.First r k resp := by
  obtain ⟨hsince, hk, hbefore⟩ := h
  have hlt : k < q.arrived.length := (List.getElem?_eq_some_iff.1 hk).1
  refine ⟨hsince, ?_, fun j y hj hjk hy => hbefore j y hj hjk ?_⟩
  · rw [hq, getElem?_append_left hlt]
    exact hk
  · rwa [hq, getElem?_append_left (Nat.lt_trans hjk hlt)] at hy

theorem QMP.Unanswered.append {x : Nat × Response} (h : q.Unanswered r) (hne : x.1 ≠ r.id)
    (hq : q'.arrived = q.arrived ++ [x]) : q'.Unanswered r := by
  intro j y hj hy
  rw [hq] at hy
  by_cases hlt : j < q.arrived.length
  · rw [getElem?_append_left hlt] at hy
    exact h j y hj hy
  · rw [getElem?_append_right (Nat.le_of_not_lt hlt)] at hy
    have hmem := mem_of_getElem? hy
    rw [mem_singleton.1 hmem]
    exact hne

theorem QMP.Unanswered.first (h : q.Unanswered r) (hs : r.since ≤ q.arrived.length)
    (hq : q'.arrived = q.arrived ++ [(r.id, resp)]) : q'.First r q.arrived.length resp := by
  refine ⟨hs, ?_, fun j x hj hlt hx => h j x hj ?_⟩
  · rw [hq, getElem?_append_right (Nat.le_refl _), Nat.sub_self]
    rfl
  · rwa [hq, getElem?_append_left hlt] at hx

namespace QMP

theorem calls_setPhase : (q.setPhase t call phase).calls t' =
    if t' = t then some { call with phase } else q.calls t' := update_apply ..

theorem ticket_setPhase : (q.setPhase t call phase).ticket t' =
    if t' = t then phase.ticket else q.ticket t' := by
  rw [ticket, calls_setPhase]
  split <;> rfl

theorem returned_setPhase : (q.setPhase t call phase).returned t' =
    if t' = t then phase.isReturned else q.returned t' := by
  rw [returned, calls_setPhase]
  split <;> rfl

end QMP

namespace Routed

theorem setCall (h : Routed q) {n : Nat}
    (hq : q' = { q with calls := update q.calls t (some call), nextCall := n })
    (hn : ∀ t', n ≤ t' → t' ≠ t ∧ q.nextCall ≤ t') (htick : call.phase.ticket = q.ticket t)
    (hret : call.phase.isReturned = true → ∀ r, q.ticket t = some r → q.pending.get r.id = none)
    (hreply : ∀ r resp err, call.phase = .returned r (some resp) err →
      ∃ r' k, r = some r' ∧ q.First r' k resp) : Routed q' := by
  have hcalls : ∀ t', q'.calls t' = if t' = t then some call else q.calls t' := by
    intro t'
    rw [hq]
    exact update_apply ..
  have htick' : ∀ t', q'.ticket t' = q.ticket t' := by
    intro t'
    rw [QMP.ticket, hcalls]
    split
    · rename_i heq
      rw [heq]
      exact htick
    · rfl
  subst hq
  refine ⟨fun t' ht' => ?_, fun t' r => ?_, fun t₁ t₂ r₁ r₂ => ?_, fun id ch hp => ?_,
    fun t' r resp rest => ?_, fun ch resp hr => ?_, fun t' call' r resp err hcall hphase => ?_⟩
  · rw [hcalls, if_neg (hn t' ht').1]
    exact h.fresh t' (hn t' ht').2
  · rw [htick']
    exact h.numbered t' r
  · rw [htick', htick']
    exact h.once t₁ t₂ r₁ r₂
  · obtain ⟨⟨t', r, ht', hlive, rfl, hrest⟩, hempty⟩ := h.pending id ch hp
    refine ⟨⟨t', r, (htick' t').trans ht', ?_, rfl, hrest⟩, hempty⟩
    rw [QMP.returned, hcalls]
    split
    · rename_i heq
      subst heq
      by_contra hx
      cases (hret (by simpa using hx) r ht').symm.trans hp
    · exact hlive
  · rw [htick']
    exact h.buffered t' r resp rest
  · obtain ⟨hempty, t', r, ht', hrest⟩ := h.replying ch resp hr
    exact ⟨hempty, t', r, (htick' t').trans ht', hrest⟩
  · rw [hcalls] at hcall
    split at hcall
    · cases hcall
      exact hreply r resp err hphase
    · exact h.replied t' call' r resp err hcall hphase

theorem setPhase (h : Routed q) (hc : q.calls t = some call) (htick : phase.ticket = call.phase.ticket)
    (hret : phase.isReturned = true → ∀ r, phase.ticket = some r → q.pending.get r.id = none)
    (hreply : ∀ r resp err, phase = .returned r (some resp) err → ∃ r' k, r = some r' ∧ q.First r' k resp) :
    Routed (q.setPhase t call phase) := by
  have hticket : phase.ticket = q.ticket t := by
    rw [htick, QMP.ticket, hc]
    rfl
  refine h.setCall rfl (fun t' ht' => ⟨?_, ht'⟩) hticket (fun hx r hr => hret hx r (hticket.trans hr)) hreply
  rintro rfl
  cases (h.fresh t' ht').symm.trans hc

theorem execute (h : Routed q) (command : String) (result : Bool) :
    Routed (q.execute command result) := by
  have hnew : q.ticket q.nextCall = none := by rw [QMP.ticket, h.fresh _ (Nat.le_refl _)]; rfl
  exact h.setCall rfl (fun t' ht' => ⟨Nat.ne_of_gt ht', Nat.le_of_lt ht'⟩) hnew.symm nofun nofun

theorem forget (h : Routed q) (id : Nat) : Routed (q.forget id) := by
  refine ⟨h.fresh, h.numbered, h.once, fun id' ch hp => ?_, h.buffered, h.replying, h.replied⟩
  have hp : GoMap.get (q.pending.erase id) id' = some ch := hp
  rw [get_erase] at hp
  split at hp
  · cases hp
  · exact h.pending id' ch hp

theorem emptied (h : Routed q) (ch : Nat) :
    Routed { q with chans := update q.chans ch [] } := by
  have hchans : ∀ ch', q.chans ch' = [] → update q.chans ch [] ch' = [] := by
    intro ch' hempty
    rw [update_apply]
    split
    · rfl
    · exact hempty
  refine ⟨h.fresh, h.numbered, h.once, fun id ch' hp => ?_, fun t r resp rest ht hx => ?_,
    fun ch' resp hr => ?_, h.replied⟩
  · obtain ⟨hwho, hempty, hreader⟩ := h.pending id ch' hp
    exact ⟨hwho, hchans ch' hempty, hreader⟩
  · dsimp only at hx
    rw [update_apply] at hx
    split at hx
    · cases hx
    · exact h.buffered t r resp rest ht hx
  · obtain ⟨hempty, hwho⟩ := h.replying ch' resp hr
    exact ⟨hchans ch' hempty, hwho⟩

theorem take (h : Routed q) (hc : q.calls t = some call) (htick : call.phase.ticket = some r)
    {rest : List Response} (hx : q.chans r.ch = resp :: rest) (undecodable : Option String) :
    Routed (q.take t call r resp rest undecodable) := by
  have hticket : q.ticket t = some r := by
    rw [QMP.ticket, hc]
    exact htick
  obtain ⟨rfl, hfirst, -⟩ := h.buffered t r resp rest hticket hx
  refine (h.emptied r.ch).setPhase hc htick.symm (fun _ r' hr' => ?_) fun r' resp' err heq => ?_
  · cases hr'
    by_contra hp
    obtain ⟨ch, hp⟩ := ne_none_iff_exists'.1 hp
    obtain ⟨⟨t', r', ht', -, hid, hch, -⟩, hempty, -⟩ := h.pending r.id ch hp
    have heq := h.once t' t r' r ht' hticket (.inl hid)
    subst heq
    cases ht'.symm.trans hticket
    subst hch
    cases hempty.symm.trans hx
  · cases heq
    obtain ⟨k, hfirst⟩ := hfirst
    exact ⟨r, k, rfl, hfirst⟩

theorem register (h : Routed q) (hc : q.calls t = some call) (htick : call.phase.ticket = none) :
    Routed (q.register t call) := by
  have hnone : q.ticket t = none := by
    rw [QMP.ticket, hc]
    exact htick
  have hticket : ∀ t', (q.register t call).ticket t' =
      if t' = t then some ⟨q.nextID + 1, q.nextChan, q.arrived.length⟩ else q.ticket t' :=
    fun t' => QMP.ticket_setPhase
  have hcalls : ∀ t', (q.register t call).calls t' = if t' = t then
      some { call with phase := .registered ⟨q.nextID + 1, q.nextChan, q.arrived.length⟩ }
      else q.calls t' := fun t' => QMP.calls_setPhase
  have hchans : ∀ ch, (q.register t call).chans ch = if ch = q.nextChan then [] else q.chans ch :=
    fun ch => update_apply ..
  have hsame : ∀ {t' r}, q.ticket t' = some r → t' ≠ t := by
    rintro t' r ht' rfl
    cases hnone.symm.trans ht'
  -- The reader sends on no channel that is not made yet.
  have hreader : ∀ resp, q.reader ≠ .replying q.nextChan resp := by
    intro resp hr
    obtain ⟨-, t', r, ht', hch, -⟩ := h.replying _ resp hr
    have hlt := (h.numbered t' r ht').2.1
    omega
  refine ⟨fun t' ht' => ?_, fun t' r ht' => ?_, fun t₁ t₂ r₁ r₂ h₁ h₂ heq => ?_, fun id ch hp => ?_,
    fun t' r resp rest ht' hx => ?_, fun ch resp hr => ?_, fun t' call' r resp err hcall hphase => ?_⟩
  · have hne : t' ≠ t := by
      rintro rfl
      cases (h.fresh t' ht').symm.trans hc
    rw [hcalls, if_neg hne]
    exact h.fresh t' ht'
  · rw [hticket] at ht'
    split at ht'
    · cases ht'
      exact ⟨Nat.le_refl _, lt_succ_self _, Nat.le_refl _⟩
    · obtain ⟨hid, hch, hsince⟩ := h.numbered t' r ht'
      exact ⟨le_succ_of_le hid, lt_succ_of_lt hch, hsince⟩
  · rw [hticket] at h₁ h₂
    split at h₁ <;> split at h₂
    · rename_i heq₁ heq₂
      rw [heq₁, heq₂]
    · cases h₁
      have hold := h.numbered t₂ r₂ h₂
      dsimp only at heq
      omega
    · cases h₂
      have hold := h.numbered t₁ r₁ h₁
      dsimp only at heq
      omega
    · exact h.once t₁ t₂ r₁ r₂ h₁ h₂ heq
  · have hp : GoMap.get (q.pending.insert (q.nextID + 1) q.nextChan) id = some ch := hp
    rw [get_insert] at hp
    rw [hchans]
    split at hp
    · rename_i hid
      cases hp
      refine ⟨⟨t, ⟨q.nextID + 1, q.nextChan, q.arrived.length⟩, ?_, ?_, hid.symm, rfl, ?_⟩, if_pos rfl, hreader⟩
      · rw [hticket, if_pos rfl]
      · exact QMP.returned_setPhase.trans (if_pos rfl)
      · intro j x hj hx
        have hlt := (List.getElem?_eq_some_iff.1 hx).1
        exact absurd hlt (Nat.not_lt.2 hj)
    · obtain ⟨⟨t', r, ht', hlive, hid, hch, hun⟩, hempty, hr⟩ := h.pending id ch hp
      have hlt := (h.numbered t' r ht').2.1
      refine ⟨⟨t', r, ?_, ?_, hid, hch, hun⟩, ?_, hr⟩
      · rw [hticket, if_neg (hsame ht')]
        exact ht'
      · exact (QMP.returned_setPhase.trans (if_neg (hsame ht'))).trans hlive
      · rw [if_neg (by omega)]
        exact hempty
  · rw [hticket] at ht'
    rw [hchans] at hx
    split at hx
    · cases hx
    split at ht'
    · cases ht'
      contradiction
    · exact h.buffered t' r resp rest ht' hx
  · obtain ⟨hempty, t', r, ht', hch, hfirst⟩ := h.replying ch resp hr
    have hlt := (h.numbered t' r ht').2.1
    refine ⟨?_, t', r, ?_, hch, hfirst⟩
    · rw [hchans, if_neg (by omega)]
      exact hempty
    · rw [hticket, if_neg (hsame ht')]
      exact ht'
  · rw [hcalls] at hcall
    split at hcall
    · cases hcall
      cases hphase
    · exact h.replied t' call' r resp err hcall hphase

theorem lookup (h : Routed q) (id : Nat) (resp : Response) :
    Routed (q.lookup id resp) := by
  have harr : (q.lookup id resp).arrived = q.arrived ++ [(id, resp)] := rfl
  have hreader : ∀ ch resp', (q.lookup id resp).reader = .replying ch resp' →
      q.pending.get id = some ch ∧ resp' = resp := by
    intro ch resp' hr
    simp only [QMP.lookup] at hr
    split at hr <;> cases hr
    exact ⟨‹_›, rfl⟩
  refine ⟨h.fresh, fun t r ht => ?_, h.once, fun id' ch hp => ?_, fun t r resp' rest ht hx => ?_,
    fun ch resp' hr => ?_, fun t call r resp' err hcall hphase => ?_⟩
  · obtain ⟨hid, hch, hsince⟩ := h.numbered t r ht
    rw [harr, length_append]
    exact ⟨hid, hch, le_add_right_of_le hsince⟩
  · have hp : GoMap.get (q.pending.erase id) id' = some ch := hp
    rw [get_erase] at hp
    split at hp
    · cases hp
    rename_i hne
    obtain ⟨⟨t, r, ht, hlive, hid, hch, hun⟩, hempty, -⟩ := h.pending id' ch hp
    refine ⟨⟨t, r, ht, hlive, hid, hch, hun.append (x := (id, resp)) ?_ harr⟩, hempty, fun resp' hr => ?_⟩
    · rw [hid]
      exact Ne.symm hne
    · -- Another pending call would have the same channel.
      obtain ⟨⟨t', r', ht', -, hid', hch', -⟩, -⟩ := h.pending id ch (hreader ch resp' hr).1
      have heq := h.once t t' r r' ht ht' (.inr (hch.trans hch'.symm))
      subst heq
      cases ht.symm.trans ht'
      exact hne (hid.symm.trans hid')
  · obtain ⟨hrest, ⟨k, hfirst⟩, -⟩ := h.buffered t r resp' rest ht hx
    refine ⟨hrest, ⟨k, hfirst.append _ harr⟩, fun resp'' hr => ?_⟩
    cases (h.pending id r.ch (hreader _ _ hr).1).2.1.symm.trans hx
  · obtain ⟨hp, rfl⟩ := hreader ch resp' hr
    obtain ⟨⟨t, r, ht, -, rfl, hch, hun⟩, hempty, -⟩ := h.pending id ch hp
    exact ⟨hempty, t, r, ht, hch, _, hun.first (h.numbered t r ht).2.2 harr⟩
  · obtain ⟨r', k, hr', hfirst⟩ := h.replied t call r resp' err hcall hphase
    exact ⟨r', k, hr', hfirst.append _ harr⟩

theorem send (h : Routed q) {ch : Nat} (hr : q.reader = .replying ch resp) :
    Routed { q with chans := update q.chans ch [resp], reader := .decoding } := by
  obtain ⟨hempty, t, r, ht, hch, hfirst⟩ := h.replying ch resp hr
  refine ⟨h.fresh, h.numbered, h.once, fun id ch' hp => ?_, fun t' r' resp' rest ht' hx => ?_, nofun, h.replied⟩
  · obtain ⟨hwho, hempty', hreader⟩ := h.pending id ch' hp
    have hne : ch' ≠ ch := by
      rintro rfl
      exact hreader resp hr
    exact ⟨hwho, (update_of_ne hne ..).trans hempty', nofun⟩
  · have hx : update q.chans ch [resp] r'.ch = resp' :: rest := hx
    by_cases heq : r'.ch = ch
    · rw [heq, update_self] at hx
      cases hx
      have htt := h.once t' t r' r ht' ht (.inr (heq.trans hch.symm))
      subst htt
      cases ht'.symm.trans ht
      exact ⟨rfl, hfirst, nofun⟩
    · rw [update_of_ne heq] at hx
      obtain ⟨hrest, hold, -⟩ := h.buffered t' r' resp' rest ht' hx
      exact ⟨hrest, hold, nofun⟩

theorem advance (h : Routed q) (hc : q.calls t = some call) {c : Choice}
    (hm : q.advance t call call.phase c = some q') : Routed q' := by
  have hgo : ∀ {phase}, phase.ticket = call.phase.ticket → phase.isReturned = false →
      Routed (q.setPhase t call phase) := by
    intro phase htick hret
    refine h.setPhase hc htick (fun hx => nomatch hret.symm.trans hx) fun r resp err heq => ?_
    rw [heq] at hret
    cases hret
  generalize hp : call.phase = phase at hm hgo
  unfold QMP.advance at hm
  split at hm
  · split at hm <;> cases hm
    · exact h.setPhase hc (by rw [hp]; rfl) nofun nofun
    · exact hgo rfl rfl
  · cases hm
    exact h.register hc (by rw [hp]; rfl)
  · cases hm
    exact hgo rfl rfl
  · cases hm
    exact hgo rfl rfl
  · cases hm
    exact hgo rfl rfl
  · cases hm
    exact hgo rfl rfl
  · split at hm <;> cases hm
    exact h.take hc (by rw [hp]; rfl) ‹_› _
  · cases hm
    exact hgo rfl rfl
  · split at hm <;> cases hm
    exact hgo rfl rfl
  · split at hm <;> cases hm
    · exact h.take hc (by rw [hp]; rfl) ‹_› _
    · exact hgo rfl rfl
  · rename_i r text
    cases hm
    refine (h.forget r.id).setPhase hc (by rw [hp]; rfl) (fun _ r' hr' => ?_) nofun
    cases hr'
    exact (get_erase ..).trans (if_pos rfl)
  · cases hm

theorem deliver (h : Routed q) (event : String) : Routed (q.deliver event) := by
  unfold QMP.deliver
  split <;> exact { h with }

theorem idle (h : Routed q) {reader : Reader} {err : Option String} {done closed : Bool}
    (hr : ∀ ch resp, reader ≠ .replying ch resp) :
    Routed { q with reader, err, done, eventsClosed := closed } where
  fresh := h.fresh
  numbered := h.numbered
  once := h.once
  pending id ch hp := ⟨(h.pending id ch hp).1, (h.pending id ch hp).2.1, hr ch⟩
  buffered t r resp rest ht hx := ⟨(h.buffered t r resp rest ht hx).1, (h.buffered t r resp rest ht hx).2.1, hr r.ch⟩
  replying ch resp hx := absurd hx (hr ch resp)
  replied := h.replied

theorem step (h : Routed q) {m : Move} (hm : q.step m = some q') : Routed q' := by
  cases m with
  | execute command result =>
    cases hm
    exact h.execute command result
  | go t c =>
    obtain ⟨call, hc, hm⟩ := bind_eq_some_iff.1 hm
    exact h.advance hc hm
  | message m =>
    simp only [QMP.step] at hm
    split at hm <;> cases hm
    unfold QMP.dispatch
    split
    · exact h.deliver m.event
    · split
      · exact h.lookup _ _
      · exact h
  | eof err =>
    simp only [QMP.step] at hm
    split at hm <;> cases hm
    exact h.idle nofun
  | read =>
    simp only [QMP.step, QMP.read] at hm
    split at hm
    · cases hm
    · cases hm
    · rename_i ch resp hr
      split at hm <;> cases hm
      rw [(h.replying ch resp hr).1]
      exact h.send hr
    · cases hm
      exact h.idle nofun
    · cases hm
      exact h.idle nofun
  | takeEvent =>
    simp only [QMP.step] at hm
    split at hm <;> cases hm
    exact { h with }

theorem start : Routed {} := ⟨fun _ _ => rfl, nofun, nofun, fun id ch hp => absurd hp (by simp), nofun, nofun, nofun⟩

end Routed

theorem Reachable.routed (h : Reachable q) : Routed q := by
  induction h with
  | start => exact .start
  | step _ hm ih => exact ih.step hm

theorem replies_reach_caller {q : QMP} (h : Reachable q) :
    (∀ ch resp, q.reader = .replying ch resp → (q.step .read).isSome = true) ∧
    (q.reader = .decoding → ∀ m, (q.step (.message m)).isSome = true) ∧ (∀ t call r resp err, q.calls t = some call →
      call.phase = .returned r (some resp) err → ∃ k, q.Uses t k) ∧
    (∀ t t' k, q.Uses t k → q.Uses t' k → t = t') ∧
    ((∀ t, q.returned t = true) → q.pending = ∅) := by
  have hrouted := h.routed
  refine ⟨fun ch resp hr => ?_, fun hr m => ?_, fun t call r resp err hc hp => ?_,
    fun t t' k hu hu' => ?_, fun hall => ?_⟩
  · simp [QMP.step, QMP.read, hr, (hrouted.replying ch resp hr).1, replyBuffer]
  · simp [QMP.step, hr]
  · obtain ⟨r', k, rfl, hfirst⟩ := hrouted.replied t call r resp err hc hp
    exact ⟨k, call, r', resp, err, hc, hp, hfirst⟩
  · obtain ⟨call, r, resp, err, hc, hp, -, hk, -⟩ := hu
    obtain ⟨call', r', resp', err', hc', hp', -, hk', -⟩ := hu'
    have hid : r.id = r'.id := congrArg Prod.fst (some.inj (hk.symm.trans hk'))
    refine hrouted.once t t' r r' ?_ ?_ (.inl hid)
    · rw [QMP.ticket, hc, bind_some, hp]
      rfl
    · rw [QMP.ticket, hc', bind_some, hp']
      rfl
  · have hnone : ∀ id, q.pending.get id = none := by
      intro id
      by_contra hp
      obtain ⟨ch, hp⟩ := ne_none_iff_exists'.1 hp
      obtain ⟨⟨t, r, -, hlive, -⟩, -⟩ := hrouted.pending id ch hp
      nomatch hlive.symm.trans (hall t)
    refine AList.ext (eq_nil_iff_forall_not_mem.2 fun e he => ?_)
    nomatch (hnone e.1).symm.trans (get_eq_some_iff.2 he)

def Sample.crossed : List Move :=
  [.execute "query-status" true, .execute "quit" false, .go 0 .ok, .go 1 .ok, .go 0 .ok, .go 1 .ok,
    .go 0 .ok, .go 1 .ok, .go 0 .ok, .go 1 .ok, .message { event := "STOP" },
    .message { id := some 2, ret := "b" }, .read, .message { id := some 2, ret := "c" },
    .message { id := some 1, ret := "a" }, .read, .eof "EOF", .read, .go 1 .done, .go 1 (.reply none),
    .go 0 (.reply none)]

theorem Reachable.exec {ms : List Move} (h : Reachable q) (hm : ms.foldlM QMP.step q = some q') : Reachable q' := by
  induction ms generalizing q with
  | nil =>
    cases hm
    exact h
  | cons m ms ih =>
    obtain ⟨q₁, hq₁, hm⟩ := bind_eq_some_iff.1 hm
    exact ih (.step h hq₁) hm

theorem replies_reach_caller_crossed : ∃ q, Reachable q ∧
    (q.calls 0).map (fun c => c.phase) = some (.returned (some ⟨1, 0, 0⟩) (some { ret := "a" }) none) ∧
    (q.calls 1).map (fun c => c.phase) = some (.returned (some ⟨2, 1, 0⟩) (some { ret := "b" }) none) ∧
    (∃ k, q.Uses 0 k) ∧ ∃ k, q.Uses 1 k := by
  have hx : (Sample.crossed.foldlM QMP.step ({} : QMP)).map (fun q =>
      ((q.calls 0).map fun c => c.phase, (q.calls 1).map fun c => c.phase)) =
      some (some (.returned (some ⟨1, 0, 0⟩) (some { ret := "a" }) none),
        some (.returned (some ⟨2, 1, 0⟩) (some { ret := "b" }) none)) := by
    decide +kernel
  obtain ⟨q, hq, hp⟩ := map_eq_some_iff.1 hx
  obtain ⟨h0, h1⟩ := Prod.mk.inj hp
  have hreach : Reachable q := .exec .start hq
  obtain ⟨c0, hc0, hp0⟩ := map_eq_some_iff.1 h0
  obtain ⟨c1, hc1, hp1⟩ := map_eq_some_iff.1 h1
  have huses := (replies_reach_caller hreach).2.2.1
  exact ⟨q, hreach, h0, h1, huses 0 c0 _ _ _ hc0 hp0, huses 1 c1 _ _ _ hc1 hp1⟩

end VmManager.Runtime.Qmp
