import AsyncEventLoop.ArduinoTcpOutput
import AsyncEventLoop.Logs

/-!
# The TCP server on Arduino

`ArduinoWiFiTcpServer` has four connections, which it uses over and over. It
judges by `valid` whether one is in use, and that asks the `WiFiClient`
whether it converts to true; that the peer is gone it finds by asking the
client for its connection and for input. Any two of these may disagree, and
the answers may change from one call to the next.

A poll is one function up to the next callback of the handler, and another
from its return. What the application does in between, in a callback or
between two polls, are events of the run.
-/

namespace AsyncEventLoop

open Logs Runs

/-! ## The server -/

def maxSlots : Nat := 4

/-- `ArduinoWiFiTcpServer`. `server` and `handler` say that the pointers are not
null. -/
structure ArduinoWiFiTcpServer where
  maxConnections : Nat
  capped : maxConnections ≤ maxSlots
  server : Bool := false
  handler : Bool := false
  boundPort : UInt16 := 0
  active : Bool := false
  connections : Nat → ArduinoWiFiTcpConnection :=
    fun _ => { tx := Vector.replicate txCapacity 0 }

namespace ArduinoWiFiTcpServer

/-- The constructor. -/
def fresh (maxConnections : Nat) : ArduinoWiFiTcpServer :=
  { maxConnections := if maxConnections > maxSlots then maxSlots else maxConnections
    capped := by split <;> omega }

def valid (s : ArduinoWiFiTcpServer) : Bool := s.active && s.server

end ArduinoWiFiTcpServer

/-- What a connection's `close` leaves of it. -/
def ArduinoWiFiTcpConnection.closed (c : ArduinoWiFiTcpConnection) : ArduinoWiFiTcpConnection :=
  { c with active := false, txHead := 0, txSize := 0 }

/-- The clients of the connections, and the `WiFiServer`. `accept` is its
`available`, with the conversion of the client it returns; `assign` makes that
client the connection's, and asks it for its peer; `stopAccepted` stops it. -/
structure WiFiEnv (W : Type) where
  client : Nat → WiFiClient W
  converts : Nat → W → Bool × W
  available : Nat → W → Int32 × W
  stop : Nat → W → W
  accept : W → Bool × W
  assign : Nat → W → W
  stopAccepted : W → W
  stopServer : W → W

/-- The callbacks of `ITcpServerHandler` that this server makes. -/
inductive WiFiCallback where
  | onAccept
  | onWriteReady
  | onData
  | onClose
  deriving DecidableEq

/-- `appClosed`: the connection was closed by a call from the application. -/
inductive WiFiNote where
  | called (callback : WiFiCallback) (connection : Nat)
  | appClosed (connection : Nat)
  deriving DecidableEq

/-- `undefined`: a null pointer was dereferenced, or the output ring left. -/
inductive WiFiActivity where
  | rest
  | callback (callback : WiFiCallback) (connection : Nat)
  | undefined
  deriving DecidableEq

/-- The newest note comes first. -/
structure WiFiServerRun (W : Type) where
  server : ArduinoWiFiTcpServer
  world : W
  activity : WiFiActivity := .rest
  log : List WiFiNote := []

namespace WiFiServerRun

variable {W : Type}

def fresh (maxConnections : Nat) (world : W) : WiFiServerRun W :=
  { server := .fresh maxConnections, world := world }

def connection (s : WiFiServerRun W) (i : Nat) : ArduinoWiFiTcpConnection := s.server.connections i

def putConnection (s : WiFiServerRun W) (i : Nat) (c : ArduinoWiFiTcpConnection) :
    WiFiServerRun W :=
  { s with server := { s.server with connections := Function.update s.server.connections i c } }

def ask {α : Type} (call : W → α × W) (s : WiFiServerRun W) : α × WiFiServerRun W :=
  ((call s.world).1, { s with world := (call s.world).2 })

def note (s : WiFiServerRun W) (n : WiFiNote) : WiFiServerRun W := { s with log := n :: s.log }

/-- `handler_->` a callback. -/
def call (s : WiFiServerRun W) (callback : WiFiCallback) (i : Nat) : WiFiServerRun W :=
  if s.server.handler then { s.note (.called callback i) with activity := .callback callback i }
  else { s with activity := .undefined }

variable (env : WiFiEnv W) (esp : Bool)

/-! ### A connection -/

def validAt (s : WiFiServerRun W) (i : Nat) : Bool × WiFiServerRun W :=
  if (s.connection i).active then s.ask (env.converts i) else (false, s)

def inputSize (s : WiFiServerRun W) (i : Nat) : Nat × WiFiServerRun W :=
  if (s.connection i).active then
    let n := s.ask (env.available i)
    (n.1.toUInt32.toNat, n.2)
  else (0, s)

def closedByPeer (s : WiFiServerRun W) (i : Nat) : Bool × WiFiServerRun W :=
  if (s.connection i).active then
    let connected := s.ask (env.client i).connected
    if connected.1 then (false, connected.2)
    else
      let n := connected.2.ask (env.available i)
      (n.1 == 0, n.2)
  else (false, s)

def closeConnection (s : WiFiServerRun W) (i : Nat) : WiFiServerRun W :=
  let stopped := if (s.connection i).active then { s with world := env.stop i s.world } else s
  stopped.putConnection i (s.connection i).closed

def attach (s : WiFiServerRun W) (i : Nat) : Bool × WiFiServerRun W :=
  let s := s.closeConnection env i
  let s := s.putConnection i (s.connection i).attach
  { s with world := env.assign i s.world }.validAt env i

/-- The connection's output, as `TxState` has it. -/
def output (s : WiFiServerRun W) (i : Nat) : TxState W :=
  { connection := s.connection i, accepted := (s.connection i).queued, world := s.world }

/-- The connection behind an operation on its output. -/
def withOutput (s : WiFiServerRun W) (i : Nat) (t : TxState W) : WiFiServerRun W :=
  { s.putConnection i t.connection with world := t.world }

/-! ### `close` and `listen` -/

/-- A turn of the loop in `close`. -/
def closeSlot (s : WiFiServerRun W) (i : Nat) : WiFiServerRun W :=
  let valid := s.validAt env i
  if valid.1 then (valid.2.closeConnection env i).note (.appClosed i) else valid.2

def close (s : WiFiServerRun W) : WiFiServerRun W :=
  let s := (List.range maxSlots).foldl (closeSlot env) s
  let s := if s.server.server then { s with world := env.stopServer s.world } else s
  { s with server :=
    { s.server with server := false, active := false, handler := false, boundPort := 0 } }

/-- `made` says that there was memory for the `WiFiServer`. -/
def listen (s : WiFiServerRun W) (port : UInt16) (made : Bool) : WiFiServerRun W :=
  let s := s.close env
  if port = 0 then s
  else if !made then s
  else { s with server :=
    { s.server with server := true, handler := true, boundPort := port, active := true } }

/-! ### `poll`

`next` is what a function goes on with if it makes no callback. -/

def checkClosed (s : WiFiServerRun W) (i : Nat) (next : WiFiServerRun W → WiFiServerRun W) :
    WiFiServerRun W :=
  let closed := s.closedByPeer env i
  if closed.1 then closed.2.call .onClose i else next closed.2

def checkInput (s : WiFiServerRun W) (i : Nat) (next : WiFiServerRun W → WiFiServerRun W) :
    WiFiServerRun W :=
  let size := s.inputSize env i
  if size.1 > 0 then size.2.call .onData i else size.2.checkClosed env i next

def checkOutput (s : WiFiServerRun W) (i : Nat) (next : WiFiServerRun W → WiFiServerRun W) :
    WiFiServerRun W :=
  match (s.output i).flushOutput (env.client i) esp with
  | none => { s with activity := .undefined }
  | some (flushed, t) =>
      if flushed > 0 then (s.withOutput i t).call .onWriteReady i
      else (s.withOutput i t).checkInput env i next

/-- `poll_connections`, with the connections that are left. -/
def pollConnections : List Nat → WiFiServerRun W → WiFiServerRun W
  | [], s => s
  | i :: rest, s =>
      let valid := s.validAt env i
      if valid.1 then valid.2.checkOutput env esp i (pollConnections rest)
      else pollConnections rest valid.2

/-- The first connection that is not valid. -/
def findSlot : List Nat → WiFiServerRun W → Option Nat × WiFiServerRun W
  | [], s => (none, s)
  | i :: rest, s =>
      let valid := s.validAt env i
      if valid.1 then findSlot rest valid.2 else (some i, valid.2)

def slots (s : WiFiServerRun W) : List Nat := List.range s.server.maxConnections

def acceptReadyClients (s : WiFiServerRun W) (next : WiFiServerRun W → WiFiServerRun W) :
    WiFiServerRun W :=
  let accepted := s.ask env.accept
  if accepted.1 then
    match accepted.2.findSlot env s.slots with
    | (some i, s) => (s.attach env i).2.call .onAccept i
    | (none, s) => next { s with world := env.stopAccepted s.world }
  else next accepted.2

def poll (s : WiFiServerRun W) : WiFiServerRun W :=
  if !s.server.valid || !s.server.handler then s
  else s.acceptReadyClients env (pollConnections env esp s.slots)

/-- The rest of a poll behind a callback. -/
def pollFrom (s : WiFiServerRun W) (callback : WiFiCallback) (i : Nat) : WiFiServerRun W :=
  let next := pollConnections env esp (s.slots.drop (i + 1))
  match callback with
  | .onAccept => pollConnections env esp s.slots s
  | .onWriteReady => s.checkInput env i next
  | .onData => s.checkClosed env i next
  | .onClose => next (s.closeConnection env i)

/-- `write` of a connection. -/
def write (s : WiFiServerRun W) (i : Nat) (src : List UInt8) : WiFiServerRun W :=
  match (s.output i).write (env.client i) esp src with
  | none => { s with activity := .undefined }
  | some (_, t) => s.withOutput i t

end WiFiServerRun

/-- `outside`: anything else that changes the clients, calls of the application on
them included. -/
inductive WiFiEvent (W : Type) where
  | poll
  | callbackReturns
  | closeConnection (connection : Nat)
  | close
  | listen (port : UInt16) (made : Bool)
  | write (connection : Nat) (src : List UInt8)
  | outside (world : W)

namespace WiFiServerRun

variable {W : Type} (env : WiFiEnv W) (esp : Bool)

/-- A poll begins when no other is going on. -/
def next (s : WiFiServerRun W) : WiFiEvent W → Option (WiFiServerRun W)
  | .poll => if s.activity = .rest then some (s.poll env esp) else none
  | .callbackReturns =>
      match s.activity with
      | .callback callback i => some ({ s with activity := .rest }.pollFrom env esp callback i)
      | _ => none
  | .closeConnection i =>
      if i < s.server.maxConnections then some ((s.closeConnection env i).note (.appClosed i))
      else none
  | .close => some (s.close env)
  | .listen port made => some (s.listen env port made)
  | .write i src => if i < s.server.maxConnections then some (s.write env esp i src) else none
  | .outside world => some { s with world := world }

def step (s : WiFiServerRun W) (e : WiFiEvent W) : Option (WiFiServerRun W) :=
  if s.activity = .undefined then none else s.next env esp e

end WiFiServerRun

/-! ## The property -/

/-- What was noted since connection `i` was last accepted. -/
def sinceAccept (i : Nat) (log : List WiFiNote) : List WiFiNote :=
  log.takeWhile (· ≠ .called .onAccept i)

/-- Connection `i` has ended: by one `on_close`, or without one by a call from the
application. -/
def Ended (i : Nat) (log : List WiFiNote) : Prop :=
  (sinceAccept i log).count (.called .onClose i) = 1
    ∨ ((sinceAccept i log).count (.called .onClose i) = 0 ∧ .appClosed i ∈ sinceAccept i log)

/-- Before a connection is accepted again, it has ended. -/
def Separated (log : List WiFiNote) : Prop :=
  ∀ newer older i, log = newer ++ .called .onAccept i :: older →
    .called .onAccept i ∈ older → Ended i older

/-- A connection that is accepted begins anew. -/
theorem sinceAccept_self (i : Nat) (log : List WiFiNote) :
    sinceAccept i (.called .onAccept i :: log) = [] := by
  simp [sinceAccept]

theorem sinceAccept_cons {i : Nat} {n : WiFiNote} (h : n ≠ .called .onAccept i)
    (log : List WiFiNote) : sinceAccept i (n :: log) = n :: sinceAccept i log := by
  simp [sinceAccept, h]

theorem separated_iff {log : List WiFiNote} :
    Separated log ↔ EachEntry
      (fun n older => ∀ i, n = .called .onAccept i → n ∈ older → Ended i older) log := by
  constructor
  · rintro h newer n older heq i rfl hmem
    exact h newer older i heq hmem
  · intro h newer older i heq hmem
    exact h newer _ older heq i rfl hmem

theorem separated_nil : Separated [] := separated_iff.mpr (eachEntry_nil _)

theorem separated_cons {n : WiFiNote} {log : List WiFiNote} :
    Separated (n :: log)
      ↔ Separated log ∧ ∀ i, n = .called .onAccept i → n ∈ log → Ended i log := by
  rw [separated_iff, separated_iff, eachEntry_cons, and_comm]

namespace WiFiServerRun

open ArduinoWiFiTcpConnection

variable {W : Type}

/-! ## What the functions do -/

def active (s : WiFiServerRun W) (i : Nat) : Bool := (s.connection i).active

def Rings (s : WiFiServerRun W) : Prop := ∀ i, InRing (s.connection i)

/-- From `s`, the connections have become active and inactive as `active` says, and
nothing else has changed than clients and queued output. -/
structure Sets (s : WiFiServerRun W) (active : Nat → Bool) (t : WiFiServerRun W) : Prop where
  active : t.active = active
  handler : t.server.handler = s.server.handler
  maxConnections : t.server.maxConnections = s.server.maxConnections
  activity : t.activity = s.activity
  log : t.log = s.log
  rings : Rings s → Rings t

/-- Nor has that. -/
def Quiet (s t : WiFiServerRun W) : Prop := Sets s s.active t

theorem Sets.trans {s t u : WiFiServerRun W} {active active' : Nat → Bool}
    (h : Sets s active t) (h' : Sets t active' u) : Sets s active' u where
  active := h'.active
  handler := h'.handler.trans h.handler
  maxConnections := h'.maxConnections.trans h.maxConnections
  activity := h'.activity.trans h.activity
  log := h'.log.trans h.log
  rings := h'.rings ∘ h.rings

theorem Sets.quiet {s t u : WiFiServerRun W} {active : Nat → Bool} (h : Sets s active t)
    (h' : Quiet t u) : Sets s active u := by
  have hboth := h.trans h'
  rwa [h.active] at hboth

/-- Where only connection `i` becomes inactive, the active ones were active. -/
theorem Sets.of_active {s t : WiFiServerRun W} {i j : Nat}
    (h : Sets s (Function.update s.active i false) t) (hj : t.active j = true) :
    s.active j = true := by
  rw [h.active] at hj
  by_cases hij : j = i
  · subst hij
    simp at hj
  · rwa [Function.update_of_ne hij] at hj

theorem Quiet.sets {s t u : WiFiServerRun W} {f : (Nat → Bool) → Nat → Bool} (h : Quiet s t)
    (h' : Sets t (f t.active) u) : Sets s (f s.active) u := by
  have hboth := h.trans h'
  rwa [h.active] at hboth

theorem Quiet.trans {s t u : WiFiServerRun W} (h : Quiet s t) (h' : Quiet t u) : Quiet s u :=
  Sets.quiet h h'

theorem quiet_world (s : WiFiServerRun W) (world : W) : Quiet s { s with world := world } :=
  ⟨rfl, rfl, rfl, rfl, rfl, id⟩

theorem quiet_refl (s : WiFiServerRun W) : Quiet s s := quiet_world s s.world

theorem quiet_ask {α : Type} (call : W → α × W) (s : WiFiServerRun W) :
    Quiet s (s.ask call).2 := quiet_world s _

theorem sets_put (s : WiFiServerRun W) (i : Nat) (c : ArduinoWiFiTcpConnection)
    (hring : InRing (s.connection i) → InRing c) :
    Sets s (Function.update s.active i c.active) (s.putConnection i c) where
  active := by
    funext j
    by_cases hj : j = i
    · subst hj
      simp [active, connection, putConnection]
    · simp [active, connection, putConnection, hj]
  handler := rfl
  maxConnections := rfl
  activity := rfl
  log := rfl
  rings h j := by
    by_cases hj : j = i
    · subst hj
      simpa [connection, putConnection] using hring (h j)
    · simpa [connection, putConnection, hj] using h j

variable (env : WiFiEnv W) (esp : Bool)

theorem validAt_spec (s : WiFiServerRun W) (i : Nat) :
    Quiet s (s.validAt env i).2 ∧ ((s.validAt env i).1 = true → s.active i = true) := by
  unfold validAt
  split
  · exact ⟨quiet_ask _ s, fun _ => ‹_›⟩
  · exact ⟨quiet_refl s, fun h => by cases h⟩

theorem inputSize_spec (s : WiFiServerRun W) (i : Nat) :
    Quiet s (s.inputSize env i).2 ∧ ((s.inputSize env i).1 > 0 → s.active i = true) := by
  unfold inputSize
  split
  · exact ⟨quiet_ask _ s, fun _ => ‹_›⟩
  · exact ⟨quiet_refl s, fun h => absurd h (Nat.lt_irrefl 0)⟩

theorem closedByPeer_spec (s : WiFiServerRun W) (i : Nat) :
    Quiet s (s.closedByPeer env i).2 ∧ ((s.closedByPeer env i).1 = true → s.active i = true) := by
  unfold closedByPeer
  split
  · have hconnected := quiet_ask (env.client i).connected s
    dsimp only
    split
    · exact ⟨hconnected, fun _ => ‹_›⟩
    · exact ⟨hconnected.trans (quiet_ask _ _), fun _ => ‹_›⟩
  · exact ⟨quiet_refl s, fun h => by cases h⟩

theorem closeConnection_sets (s : WiFiServerRun W) (i : Nat) :
    Sets s (Function.update s.active i false) (s.closeConnection env i) := by
  have hstopped : Quiet s
      (if (s.connection i).active then { s with world := env.stop i s.world } else s) := by
    split
    · exact quiet_world s _
    · exact quiet_refl s
  refine hstopped.sets (f := fun active => Function.update active i false) ?_
  exact sets_put _ i (s.connection i).closed fun _ => ⟨Nat.succ_pos _, Nat.zero_le _⟩

theorem attach_sets (s : WiFiServerRun W) (i : Nat) :
    Sets s (Function.update s.active i true) (s.attach env i).2 := by
  have hclosed := closeConnection_sets env s i
  have hput := sets_put (s.closeConnection env i) i ((s.closeConnection env i).connection i).attach
    fun _ => ⟨Nat.succ_pos _, Nat.zero_le _⟩
  have hactive : Function.update (s.closeConnection env i).active i true
      = Function.update s.active i true := by
    rw [hclosed.active, Function.update_idem]
  have hattached := hclosed.trans hput
  have hflag : ((s.closeConnection env i).connection i).attach.active = true := rfl
  rw [hflag, hactive] at hattached
  exact (hattached.quiet (quiet_world _ _)).quiet (validAt_spec env _ i).1

theorem output_sound {s : WiFiServerRun W} (h : Rings s) (i : Nat) : (s.output i).Sound where
  now := ⟨h i, List.nil_append _⟩
  points := List.forall_mem_nil _

/-- What becomes of a connection's output leaves it as active as it was. -/
theorem withOutput_quiet (s : WiFiServerRun W) {i : Nat} {t : TxState W}
    (hring : InRing t.connection) (hactive : t.connection.active = s.active i) :
    Quiet s (s.withOutput i t) := by
  have hput := sets_put s i t.connection fun _ => hring
  rw [hactive, Function.update_eq_self] at hput
  exact hput.quiet (quiet_world _ _)

theorem flushOutput_quiet {s : WiFiServerRun W} (h : Rings s) (i : Nat) :
    ∃ flushed t, (s.output i).flushOutput (env.client i) esp = some (flushed, t)
      ∧ Quiet s (s.withOutput i t) := by
  obtain ⟨flushed, t, hflush, hsound, -, hactive⟩ :=
    TxState.flushOutput_spec (env.client i) esp (output_sound h i)
  exact ⟨flushed, t, hflush, withOutput_quiet s hsound.now.toInRing hactive⟩

theorem write_quiet {s : WiFiServerRun W} (h : Rings s) (i : Nat) (src : List UInt8) :
    Quiet s (s.write env esp i src) := by
  unfold write
  cases hactive : (s.connection i).active with
  | true =>
      obtain ⟨-, n, t, -, hwrite, -, -, hsound, hkept⟩ :=
        TxState.write_spec (env.client i) esp (output_sound h i) hactive src
      rw [hwrite]
      exact withOutput_quiet s hsound.now.toInRing (hkept.trans hactive.symm)
  | false =>
      have hwrite : (s.output i).write (env.client i) esp src = some (0, s.output i) := by
        simp [TxState.write, output, hactive]
      rw [hwrite]
      exact withOutput_quiet s (h i) rfl

/-- How a poll goes on: to its end, or to a callback about an active connection. -/
inductive Polled (s : WiFiServerRun W) : WiFiServerRun W → Prop where
  | ends {t : WiFiServerRun W} (h : Quiet s t) : Polled s t
  | calls {t : WiFiServerRun W} (callback : WiFiCallback) (i : Nat) (h : Quiet s t)
      (hactive : s.active i = true) (hcallback : callback ≠ .onAccept) :
      Polled s (t.call callback i)

theorem Quiet.polled {s t u : WiFiServerRun W} (h : Quiet s t) (hp : Polled t u) :
    Polled s u := by
  cases hp with
  | ends h' => exact .ends (h.trans h')
  | calls callback i h' hactive hcallback =>
      exact .calls callback i (h.trans h') (h.active ▸ hactive) hcallback

section Checks

variable {s : WiFiServerRun W} {next : WiFiServerRun W → WiFiServerRun W} {i : Nat}
  (hnext : ∀ t, Quiet s t → Polled t (next t))
include hnext

theorem checkClosed_polled : Polled s (s.checkClosed env i next) := by
  obtain ⟨hquiet, hactive⟩ := closedByPeer_spec env s i
  unfold checkClosed
  dsimp only
  split
  · rename_i hclosed
    exact .calls .onClose i hquiet (hactive hclosed) WiFiCallback.noConfusion
  · exact hquiet.polled (hnext _ hquiet)

theorem checkInput_polled : Polled s (s.checkInput env i next) := by
  obtain ⟨hquiet, hactive⟩ := inputSize_spec env s i
  unfold checkInput
  dsimp only
  split
  · rename_i hsize
    exact .calls .onData i hquiet (hactive hsize) WiFiCallback.noConfusion
  · exact hquiet.polled (checkClosed_polled env fun t ht => hnext t (hquiet.trans ht))

theorem checkOutput_polled (h : Rings s) (hactive : s.active i = true) :
    Polled s (s.checkOutput env esp i next) := by
  obtain ⟨flushed, t, hflush, hquiet⟩ := flushOutput_quiet env esp h i
  unfold checkOutput
  rw [hflush]
  dsimp only
  split
  · exact .calls .onWriteReady i hquiet hactive WiFiCallback.noConfusion
  · exact hquiet.polled (checkInput_polled env fun t ht => hnext t (hquiet.trans ht))

end Checks

/-- The induction is on the connections that are left. -/
theorem pollConnections_polled (is : List Nat) {s : WiFiServerRun W} (h : Rings s) :
    Polled s (pollConnections env esp is s) := by
  induction is generalizing s with
  | nil => exact .ends (quiet_refl s)
  | cons i rest ih =>
      obtain ⟨hquiet, hactive⟩ := validAt_spec env s i
      have hnext : ∀ t, Quiet s t → Polled t (pollConnections env esp rest t) :=
        fun t ht => ih (ht.rings h)
      unfold pollConnections
      dsimp only
      split
      · rename_i hvalid
        refine hquiet.polled (checkOutput_polled env esp ?_ (hquiet.rings h)
          (hquiet.active ▸ hactive hvalid))
        exact fun t ht => hnext t (hquiet.trans ht)
      · exact hquiet.polled (hnext _ hquiet)

/-- The rest of a poll behind any callback but `on_close`. -/
theorem pollFrom_polled {s : WiFiServerRun W} (h : Rings s) {callback : WiFiCallback}
    (hcallback : callback ≠ .onClose) (i : Nat) : Polled s (s.pollFrom env esp callback i) := by
  have hnext : ∀ t, Quiet s t → Polled t (pollConnections env esp (s.slots.drop (i + 1)) t) :=
    fun t ht => pollConnections_polled env esp _ (ht.rings h)
  cases callback with
  | onAccept => exact pollConnections_polled env esp _ h
  | onWriteReady => exact checkInput_polled env hnext
  | onData => exact checkClosed_polled env hnext
  | onClose => exact absurd rfl hcallback

theorem pollFrom_onClose {s : WiFiServerRun W} (h : Rings s) (i : Nat) :
    ∃ m, Sets s (Function.update s.active i false) m
      ∧ Polled m (s.pollFrom env esp .onClose i) := by
  have hset := closeConnection_sets env s i
  exact ⟨_, hset, pollConnections_polled env esp _ (hset.rings h)⟩

theorem findSlot_spec (is : List Nat) (s : WiFiServerRun W) :
    Quiet s (findSlot env is s).2 ∧ ∀ i, (findSlot env is s).1 = some i → i ∈ is := by
  induction is generalizing s with
  | nil => exact ⟨quiet_refl s, fun i h => by cases h⟩
  | cons j rest ih =>
      obtain ⟨hquiet, -⟩ := validAt_spec env s j
      unfold findSlot
      dsimp only
      split
      · obtain ⟨hrest, hmem⟩ := ih (s.validAt env j).2
        exact ⟨hquiet.trans hrest, fun i h => List.mem_cons_of_mem _ (hmem i h)⟩
      · refine ⟨hquiet, fun i h => ?_⟩
        obtain rfl := Option.some.inj h
        exact List.mem_cons_self ..

/-- The connection a poll gives to a client that has come in, if any. -/
def accepting (s : WiFiServerRun W) : Option Nat :=
  if !s.server.valid || !s.server.handler then none
  else
    let accepted := s.ask env.accept
    if accepted.1 then (accepted.2.findSlot env s.slots).1 else none

theorem poll_spec {s : WiFiServerRun W} (h : Rings s) :
    (s.accepting env = none ∧ Polled s (s.poll env esp)
        ∧ (s.server.handler = false → s.poll env esp = s))
      ∨ ∃ i m, s.accepting env = some i ∧ i < s.server.maxConnections ∧ s.server.handler = true
        ∧ Sets s (Function.update s.active i true) m ∧ s.poll env esp = m.call .onAccept i := by
  have hnext : ∀ t, Quiet s t → Polled s (pollConnections env esp s.slots t) :=
    fun t ht => ht.polled (pollConnections_polled env esp _ (ht.rings h))
  unfold poll accepting
  split
  · exact Or.inl ⟨rfl, .ends (quiet_refl s), fun _ => rfl⟩
  · rename_i hserving
    have hhandler : s.server.handler = true := by
      cases hh : s.server.handler with
      | true => rfl
      | false => simp [hh] at hserving
    have hno : s.server.handler = false → ∀ t, t = s := by
      intro hh
      rw [hhandler] at hh
      cases hh
    have hasked := quiet_ask env.accept s
    unfold acceptReadyClients
    dsimp only
    split
    · obtain ⟨hfound, hmem⟩ := findSlot_spec env s.slots (s.ask env.accept).2
      generalize findSlot env s.slots (s.ask env.accept).2 = r at hfound hmem
      obtain ⟨_ | i, t⟩ := r
      · exact Or.inl ⟨rfl, hnext _ ((hasked.trans hfound).trans (quiet_world _ _)),
          fun hh => hno hh _⟩
      · refine Or.inr ⟨i, _, rfl, List.mem_range.mp (hmem i rfl), hhandler, ?_, rfl⟩
        exact (hasked.trans hfound).sets (f := fun active => Function.update active i true)
          (attach_sets env t i)
    · exact Or.inl ⟨rfl, hnext _ hasked, fun hh => hno hh _⟩

/-! ## The life of a connection -/

/-- Where connection `i` is in its life. An active one was accepted and has not
ended, but its `on_close` may be executing, as `closing` says; any other has
ended. -/
structure LifeAt (i : Nat) (active closing : Bool) (log : List WiFiNote) : Prop where
  accepted : active = true → .called .onAccept i ∈ log
  kept : active = true → .appClosed i ∉ sinceAccept i log
  count : active = true →
    (sinceAccept i log).count (.called .onClose i) = if closing then 1 else 0
  ended : active = false → .called .onAccept i ∈ log → Ended i log

/-- Notes about other connections, and about input and output. -/
theorem LifeAt.other {i : Nat} {active closing : Bool} {n : WiFiNote} {log : List WiFiNote}
    (h : LifeAt i active closing log) (haccept : n ≠ .called .onAccept i)
    (hclose : n ≠ .called .onClose i) (happ : n ≠ .appClosed i) :
    LifeAt i active closing (n :: log) where
  accepted hactive := List.mem_cons_of_mem _ (h.accepted hactive)
  kept hactive := by
    rw [sinceAccept_cons haccept]
    exact List.not_mem_cons_of_ne_of_not_mem (Ne.symm happ) (h.kept hactive)
  count hactive := by
    rw [sinceAccept_cons haccept, List.count_cons_of_ne hclose]
    exact h.count hactive
  ended hactive hmem := by
    have hmem := (List.mem_cons.mp hmem).resolve_left (Ne.symm haccept)
    unfold Ended
    rw [sinceAccept_cons haccept, List.count_cons_of_ne hclose]
    exact (h.ended hactive hmem).imp_right fun ⟨hcount, happ⟩ =>
      ⟨hcount, List.mem_cons_of_mem _ happ⟩

theorem LifeAt.accept (i : Nat) (log : List WiFiNote) :
    LifeAt i true false (.called .onAccept i :: log) where
  accepted _ := List.mem_cons_self ..
  kept _ := by
    rw [sinceAccept_self]
    exact List.not_mem_nil
  count _ := by
    rw [sinceAccept_self]
    rfl
  ended h := by cases h

theorem LifeAt.onClose {i : Nat} {log : List WiFiNote} (h : LifeAt i true false log) :
    LifeAt i true true (.called .onClose i :: log) where
  accepted _ := List.mem_cons_of_mem _ (h.accepted rfl)
  kept _ := by
    rw [sinceAccept_cons (by simp)]
    exact List.not_mem_cons_of_ne_of_not_mem WiFiNote.noConfusion (h.kept rfl)
  count _ := by
    rw [sinceAccept_cons (by simp), List.count_cons_self, h.count rfl]
    rfl
  ended h := by cases h

/-- Behind its `on_close` the server closes it. -/
theorem LifeAt.peerClosed {i : Nat} {active closing : Bool} {log : List WiFiNote}
    (h : LifeAt i active true log) : LifeAt i false closing log where
  accepted h := by cases h
  kept h := by cases h
  count h := by cases h
  ended _ hmem := by
    cases active with
    | true => exact Or.inl (h.count rfl)
    | false => exact h.ended rfl hmem

/-- The application closes it, whatever it was. -/
theorem LifeAt.appClosed {i : Nat} {active closing : Bool} {log : List WiFiNote}
    (h : LifeAt i active closing log) : LifeAt i false closing (.appClosed i :: log) where
  accepted h := by cases h
  kept h := by cases h
  count h := by cases h
  ended _ hmem := by
    have hmem := (List.mem_cons.mp hmem).resolve_left WiFiNote.noConfusion
    unfold Ended
    rw [sinceAccept_cons WiFiNote.noConfusion, List.count_cons_of_ne WiFiNote.noConfusion]
    cases active with
    | true =>
        rw [h.count rfl]
        cases closing with
        | true => exact Or.inl rfl
        | false => exact Or.inr ⟨rfl, List.mem_cons_self ..⟩
    | false =>
        exact (h.ended rfl hmem).imp_right fun ⟨hcount, happ⟩ =>
          ⟨hcount, List.mem_cons_of_mem _ happ⟩

/-- An active connection that is accepted again has not ended. -/
theorem LifeAt.not_ended {i : Nat} {log : List WiFiNote} (h : LifeAt i true false log) :
    ¬ Ended i log := by
  have hcount := h.count rfl
  rintro (hone | ⟨-, hmem⟩)
  · rw [hcount] at hone
    cases hone
  · exact h.kept rfl hmem

def closing (s : WiFiServerRun W) (i : Nat) : Bool := s.activity = .callback .onClose i

def Life (s : WiFiServerRun W) : Prop := ∀ i, LifeAt i (s.active i) (s.closing i) s.log

theorem Life.congr {s t : WiFiServerRun W} (h : Life s) (hactive : t.active = s.active)
    (hactivity : t.activity = s.activity) (hlog : t.log = s.log) : Life t := by
  intro i
  have hclosing : t.closing i = s.closing i := by rw [closing, closing, hactivity]
  rw [hactive, hclosing, hlog]
  exact h i

theorem Life.quiet {s t : WiFiServerRun W} (h : Life s) (hq : Quiet s t) : Life t :=
  h.congr hq.active hq.activity hq.log

/-- The application closes connection `i`. -/
theorem Life.appClosed {s t : WiFiServerRun W} {i : Nat} (h : Life s)
    (hset : Sets s (Function.update s.active i false) t) : Life (t.note (.appClosed i)) := by
  intro j
  have hclosing : (t.note (.appClosed i)).closing j = s.closing j := by
    rw [closing, closing, ← hset.activity]
    rfl
  change LifeAt j (t.active j) _ (.appClosed i :: t.log)
  rw [hclosing, hset.active, hset.log]
  by_cases hij : j = i
  · subst hij
    rw [Function.update_self]
    exact (h j).appClosed
  · rw [Function.update_of_ne hij]
    exact (h j).other WiFiNote.noConfusion WiFiNote.noConfusion (by simp [Ne.symm hij])

/-- A callback other than `on_close` returns. -/
theorem Life.returns {s : WiFiServerRun W} {callback : WiFiCallback} {i : Nat} (h : Life s)
    (hactivity : s.activity = .callback callback i) (hcallback : callback ≠ .onClose) :
    Life { s with activity := .rest } := by
  intro j
  have hlife := h j
  have hclosing : s.closing j = false := by simp [closing, hactivity, hcallback]
  rw [hclosing] at hlife
  exact hlife

theorem Life.peerClosed {s t : WiFiServerRun W} {i : Nat} (h : Life s)
    (hactivity : s.activity = .callback .onClose i)
    (hset : Sets { s with activity := .rest } (Function.update s.active i false) t) : Life t := by
  intro j
  have hlife := h j
  have hrest : t.activity = .rest := hset.activity
  have hlog : t.log = s.log := hset.log
  rw [closing, hactivity] at hlife
  rw [closing, hrest, hset.active, hlog]
  by_cases hij : j = i
  · subst hij
    rw [Function.update_self]
    rw [decide_eq_true rfl] at hlife
    exact hlife.peerClosed
  · rw [Function.update_of_ne hij]
    simpa [Ne.symm hij] using hlife

/-- A callback about an active connection. -/
theorem Life.call {s : WiFiServerRun W} {callback : WiFiCallback} {i : Nat} (h : Life s)
    (hrest : s.activity = .rest) (hactive : s.active i = true) (hcallback : callback ≠ .onAccept) :
    Life (s.call callback i) := by
  have hnot : ∀ j, LifeAt j (s.active j) false s.log := by
    intro j
    have hlife := h j
    rwa [closing, hrest] at hlife
  unfold WiFiServerRun.call
  split
  · intro j
    change LifeAt j (s.active j) (WiFiActivity.callback callback i = .callback .onClose j)
      (.called callback i :: s.log)
    by_cases hclose : callback = .onClose ∧ i = j
    · obtain ⟨rfl, rfl⟩ := hclose
      have hlife := hnot i
      rw [hactive] at hlife ⊢
      rw [decide_eq_true rfl]
      exact hlife.onClose
    · have hclosing : decide (WiFiActivity.callback callback i = .callback .onClose j) = false := by
        simpa using hclose
      rw [hclosing]
      exact (hnot j).other (by simp [hcallback]) (by simpa using hclose) WiFiNote.noConfusion
  · exact hnot

/-- A connection is accepted, whether it was active or not. -/
theorem Life.accept {s m : WiFiServerRun W} {i : Nat} (h : Life s) (hrest : s.activity = .rest)
    (hhandler : s.server.handler = true) (hset : Sets s (Function.update s.active i true) m) :
    Life (m.call .onAccept i) := by
  have hcall : m.call .onAccept i
      = { m.note (.called .onAccept i) with activity := .callback .onAccept i } :=
    if_pos (hset.handler.trans hhandler)
  rw [hcall]
  intro j
  have hlife := h j
  rw [closing, hrest] at hlife
  change LifeAt j (m.active j) (WiFiActivity.callback .onAccept i = .callback .onClose j)
    (.called .onAccept i :: m.log)
  have hclosing : decide (WiFiActivity.callback .onAccept i = .callback .onClose j) = false := by
    simp
  rw [hclosing, hset.active, hset.log]
  by_cases hij : j = i
  · subst hij
    rw [Function.update_self]
    exact LifeAt.accept j s.log
  · rw [Function.update_of_ne hij]
    exact hlife.other (by simp [Ne.symm hij]) (by simp) WiFiNote.noConfusion

/-! ## Steps -/

/-- What holds in every state of a run. -/
structure Proper (s : WiFiServerRun W) : Prop where
  life : Life s
  rings : Rings s
  bounded : ∀ i, s.active i = true → i < s.server.maxConnections

theorem proper_fresh (maxConnections : Nat) (world : W) : Proper (fresh maxConnections world) where
  life _ := ⟨nofun, nofun, nofun, fun _ hmem => by cases hmem⟩
  rings _ := ⟨Nat.succ_pos _, Nat.zero_le _⟩
  bounded _ := nofun

/-- From `s`, connections have been closed, and accepted ones are as separated as
they were. -/
structure Shuts (s t : WiFiServerRun W) : Prop where
  proper : Proper s → Proper t
  separated : Separated t.log ↔ Separated s.log
  active : ∀ i, t.active i = true → s.active i = true
  activity : t.activity = s.activity
  maxConnections : t.server.maxConnections = s.server.maxConnections

theorem Shuts.trans {s t u : WiFiServerRun W} (h : Shuts s t) (h' : Shuts t u) : Shuts s u where
  proper := h'.proper ∘ h.proper
  separated := h'.separated.trans h.separated
  active i hactive := h.active i (h'.active i hactive)
  activity := h'.activity.trans h.activity
  maxConnections := h'.maxConnections.trans h.maxConnections

theorem Shuts.inactive {s t : WiFiServerRun W} (h : Shuts s t) {i : Nat}
    (hi : s.active i = false) : t.active i = false := by
  cases hactive : t.active i with
  | false => rfl
  | true =>
      rw [h.active i hactive] at hi
      cases hi

theorem Quiet.shuts {s t : WiFiServerRun W} (h : Quiet s t) : Shuts s t where
  proper hs := by
    refine ⟨hs.life.quiet h, h.rings hs.rings, ?_⟩
    rw [h.active, h.maxConnections]
    exact hs.bounded
  separated := by rw [h.log]
  active i hi := by rwa [h.active] at hi
  activity := h.activity
  maxConnections := h.maxConnections

/-- The application closes connection `i`. -/
theorem closes_shuts (s : WiFiServerRun W) (i : Nat) :
    Shuts s ((s.closeConnection env i).note (.appClosed i)) := by
  have hset := closeConnection_sets env s i
  constructor
  case proper =>
    intro hs
    refine ⟨hs.life.appClosed hset, hset.rings hs.rings, ?_⟩
    intro j hj
    exact hset.maxConnections ▸ hs.bounded j (hset.of_active hj)
  case separated =>
    change Separated (.appClosed i :: (s.closeConnection env i).log) ↔ _
    rw [separated_cons, hset.log]
    exact and_iff_left fun _ heq => by cases heq
  case active => exact fun j hj => hset.of_active hj
  case activity => exact hset.activity
  case maxConnections => exact hset.maxConnections

theorem closeSlot_shuts (s : WiFiServerRun W) (i : Nat) : Shuts s (s.closeSlot env i) := by
  have hvalid := (validAt_spec env s i).1.shuts
  unfold closeSlot
  dsimp only
  split
  · exact hvalid.trans (closes_shuts env _ i)
  · exact hvalid

theorem closeSlots_shuts (is : List Nat) (s : WiFiServerRun W) :
    Shuts s (is.foldl (closeSlot env) s) := by
  induction is generalizing s with
  | nil => exact (quiet_refl s).shuts
  | cons i rest ih => exact (closeSlot_shuts env s i).trans (ih _)

/-- The pointers do not matter for that. -/
theorem shuts_serving (s : WiFiServerRun W) (server handler active : Bool) (boundPort : UInt16) :
    Shuts s { s with server :=
      { s.server with server := server, handler := handler, active := active,
                      boundPort := boundPort } } where
  proper hs := ⟨hs.life, hs.rings, hs.bounded⟩
  separated := Iff.rfl
  active _ hi := hi
  activity := rfl
  maxConnections := rfl

theorem close_shuts (s : WiFiServerRun W) : Shuts s (s.close env) := by
  have hstopped : ∀ t : WiFiServerRun W, Shuts t
      (if t.server.server then { t with world := env.stopServer t.world } else t) := by
    intro t
    split
    · exact (quiet_world t _).shuts
    · exact (quiet_refl t).shuts
  exact (closeSlots_shuts env _ s).trans ((hstopped _).trans (shuts_serving _ _ _ _ _))

theorem listen_shuts (s : WiFiServerRun W) (port : UInt16) (made : Bool) :
    Shuts s (s.listen env port made) := by
  have hclosed := close_shuts env s
  unfold listen
  dsimp only
  split
  · exact hclosed
  · split
    · exact hclosed
    · exact hclosed.trans (shuts_serving _ _ _ _ _)

/-- What the application does, unless it returns from a callback. -/
theorem next_shuts {s t : WiFiServerRun W} {e : WiFiEvent W} (h : Rings s)
    (hnext : s.next env esp e = some t) (hpoll : e ≠ .poll) (hreturns : e ≠ .callbackReturns) :
    Shuts s t := by
  cases e with
  | poll => exact absurd rfl hpoll
  | callbackReturns => exact absurd rfl hreturns
  | closeConnection i =>
      simp only [next] at hnext
      split at hnext
      · obtain rfl := Option.some.inj hnext
        exact closes_shuts env s i
      · cases hnext
  | close =>
      obtain rfl := Option.some.inj hnext
      exact close_shuts env s
  | listen port made =>
      obtain rfl := Option.some.inj hnext
      exact listen_shuts env s port made
  | write i src =>
      simp only [next] at hnext
      split at hnext
      · obtain rfl := Option.some.inj hnext
        exact (write_quiet env esp h i src).shuts
      · cases hnext
  | outside world =>
      obtain rfl := Option.some.inj hnext
      exact (quiet_world s world).shuts

theorem call_active (s : WiFiServerRun W) (callback : WiFiCallback) (i : Nat) :
    (s.call callback i).active = s.active := by
  unfold call
  split <;> rfl

theorem Proper.call {s : WiFiServerRun W} {callback : WiFiCallback} {i : Nat} (h : Proper s)
    (hlife : Life (s.call callback i)) : Proper (s.call callback i) := by
  refine ⟨hlife, ?_, ?_⟩
  · unfold WiFiServerRun.call
    split <;> exact h.rings
  · rw [call_active]
    unfold WiFiServerRun.call
    split <;> exact h.bounded

/-- Only `on_accept` matters for whether connections are separated. -/
theorem separated_call {s : WiFiServerRun W} {callback : WiFiCallback} {i : Nat}
    (hcallback : callback ≠ .onAccept) : Separated (s.call callback i).log ↔ Separated s.log := by
  unfold call
  split
  · change Separated (.called callback i :: s.log) ↔ _
    rw [separated_cons]
    refine and_iff_left fun j heq => ?_
    exact absurd (WiFiNote.called.inj heq).1 hcallback
  · exact Iff.rfl

theorem Polled.proper {s t : WiFiServerRun W} (hp : Polled s t) (h : Proper s)
    (hrest : s.activity = .rest) : Proper t ∧ (Separated t.log ↔ Separated s.log) := by
  cases hp with
  | ends hq => exact ⟨hq.shuts.proper h, hq.shuts.separated⟩
  | @calls m callback i hq hactive hcallback =>
      have hm := hq.shuts.proper h
      have hlife := hm.life.call (hq.activity.trans hrest) (hq.active ▸ hactive) hcallback
      exact ⟨hm.call hlife, (separated_call hcallback).trans hq.shuts.separated⟩

/-- The client that comes in is given a connection that is not active. -/
def givesFree (s : WiFiServerRun W) : WiFiEvent W → Bool
  | .poll =>
      match s.accepting env with
      | some i => !s.active i
      | none => true
  | _ => true

theorem poll_separated {s : WiFiServerRun W} (h : Proper s) (hrest : s.activity = .rest) :
    Proper (s.poll env esp)
      ∧ (Separated (s.poll env esp).log ↔ Separated s.log ∧ s.givesFree env .poll = true) := by
  rcases poll_spec env esp h.rings with
    ⟨hnone, hpolled, -⟩ | ⟨i, m, hsome, hi, hhandler, hset, hcall⟩
  · obtain ⟨hproper, hseparated⟩ := hpolled.proper h hrest
    refine ⟨hproper, hseparated.trans (and_iff_left ?_).symm⟩
    simp [givesFree, hnone]
  · have hlife := h.life.accept hrest hhandler hset
    have hfree : s.givesFree env .poll = !s.active i := by simp [givesFree, hsome]
    have hlog : (m.call .onAccept i).log = .called .onAccept i :: s.log := by
      rw [call, if_pos (hset.handler.trans hhandler), ← hset.log]
      rfl
    rw [hcall, hfree, hlog, separated_cons]
    refine ⟨⟨hlife, ?_, ?_⟩, and_congr_right fun _ => ?_⟩
    · unfold call
      split <;> exact hset.rings h.rings
    · have hmax : (m.call .onAccept i).server.maxConnections = s.server.maxConnections := by
        rw [← hset.maxConnections]
        unfold call
        split <;> rfl
      intro j hj
      rw [call_active, hset.active] at hj
      rw [hmax]
      by_cases hij : j = i
      · rwa [hij]
      · exact h.bounded j (by simpa [hij] using hj)
    · have hat := h.life i
      rw [closing, hrest] at hat
      cases hactive : s.active i with
      | false => simpa using fun hmem => hat.ended hactive hmem
      | true =>
          rw [hactive] at hat
          constructor
          · exact fun hended => absurd (hended i rfl (hat.accepted rfl)) hat.not_ended
          · nofun

theorem returns_separated {s : WiFiServerRun W} (h : Proper s) {callback : WiFiCallback} {i : Nat}
    (hactivity : s.activity = .callback callback i) :
    Proper ({ s with activity := .rest }.pollFrom env esp callback i)
      ∧ (Separated ({ s with activity := .rest }.pollFrom env esp callback i).log
        ↔ Separated s.log) := by
  have hrings : Rings { s with activity := .rest } := h.rings
  by_cases hcallback : callback = .onClose
  · subst hcallback
    obtain ⟨m, hset, hpolled⟩ := pollFrom_onClose env esp hrings i
    have hm : Proper m := by
      refine ⟨h.life.peerClosed hactivity hset, hset.rings h.rings, ?_⟩
      intro j hj
      rw [hset.maxConnections]
      exact h.bounded j (hset.of_active hj)
    obtain ⟨hproper, hseparated⟩ := hpolled.proper hm hset.activity
    rw [hset.log] at hseparated
    exact ⟨hproper, hseparated⟩
  · have hreturned : Proper { s with activity := .rest } :=
      ⟨h.life.returns hactivity hcallback, h.rings, h.bounded⟩
    exact (pollFrom_polled env esp hrings hcallback i).proper hreturned rfl

/-- **The step lemma.** -/
theorem step_separated {s t : WiFiServerRun W} {e : WiFiEvent W} (h : Proper s)
    (hstep : s.step env esp e = some t) :
    Proper t ∧ (Separated t.log ↔ Separated s.log ∧ s.givesFree env e = true) := by
  unfold step at hstep
  split at hstep
  · cases hstep
  · cases e with
    | poll =>
        simp only [next] at hstep
        split at hstep
        · rename_i hrest
          obtain rfl := Option.some.inj hstep
          exact poll_separated env esp h hrest
        · cases hstep
    | callbackReturns =>
        simp only [next] at hstep
        split at hstep
        · rename_i hactivity
          obtain rfl := Option.some.inj hstep
          obtain ⟨hproper, hseparated⟩ := returns_separated env esp h hactivity
          exact ⟨hproper, hseparated.trans (and_iff_left rfl).symm⟩
        · cases hstep
    | _ =>
        have hshuts := next_shuts env esp h.rings hstep (by simp) (by simp)
        exact ⟨hshuts.proper h, hshuts.separated.trans (and_iff_left rfl).symm⟩

/-! ## The handler -/

/-- The loop of `close` finds no active connection whose client converts to
false. -/
def closesAll : List Nat → WiFiServerRun W → Bool
  | [], _ => true
  | i :: rest, s =>
      ((s.validAt env i).1 || !s.active i) && closesAll rest (s.closeSlot env i)

/-- A server that stops to serve in a callback closes all active connections. -/
def closesActive (s : WiFiServerRun W) : WiFiEvent W → Bool
  | .close => s.activity = .rest || closesAll env (List.range maxSlots) s
  | .listen port made =>
      s.activity = .rest || (port ≠ 0 && made) || closesAll env (List.range maxSlots) s
  | _ => true

/-- In a callback of a server without a handler, no connection is active. -/
structure Safe (s : WiFiServerRun W) : Prop where
  defined : s.activity ≠ .undefined
  silent : s.activity ≠ .rest → s.server.handler = false → ∀ i, s.active i = false

/-- The rest of a poll, if there is a handler or nothing to call it for. -/
theorem Polled.safe {s t : WiFiServerRun W} (hp : Polled s t) (hrest : s.activity = .rest)
    (hsilent : s.server.handler = false → ∀ i, s.active i = false) : Safe t := by
  cases hp with
  | ends hq =>
      have hend := hq.activity.trans hrest
      refine ⟨?_, fun hne => absurd hend hne⟩
      rw [hend]
      exact WiFiActivity.noConfusion
  | @calls m callback i hq hactive hcallback =>
      have hhandler : m.server.handler = true := by
        rw [hq.handler]
        cases hh : s.server.handler with
        | true => rfl
        | false =>
            rw [hsilent hh i] at hactive
            cases hactive
      rw [call, if_pos hhandler]
      refine ⟨WiFiActivity.noConfusion, fun _ hh => ?_⟩
      rw [show m.server.handler = false from hh] at hhandler
      cases hhandler

theorem Safe.shuts {s t : WiFiServerRun W} (h : Safe s) (hshuts : Shuts s t)
    (hsilent : s.activity ≠ .rest → t.server.handler = false → ∀ i, t.active i = false) :
    Safe t where
  defined := hshuts.activity ▸ h.defined
  silent := by
    rw [hshuts.activity]
    exact hsilent

theorem closeSlots_inactive {is : List Nat} {s : WiFiServerRun W}
    (h : closesAll env is s = true) {i : Nat} (hi : i ∈ is) :
    (is.foldl (closeSlot env) s).active i = false := by
  induction is generalizing s with
  | nil => cases hi
  | cons j rest ih =>
      rw [closesAll, Bool.and_eq_true] at h
      obtain ⟨hfirst, hrest⟩ := h
      rcases List.mem_cons.mp hi with rfl | hi
      · refine (closeSlots_shuts env rest _).inactive ?_
        have hvalid := (validAt_spec env s i).1
        unfold closeSlot
        dsimp only
        split
        · have hset := closeConnection_sets env (s.validAt env i).2 i
          change ((s.validAt env i).2.closeConnection env i).active i = false
          rw [hset.active, Function.update_self]
        · rename_i hnot
          rw [hvalid.active]
          simpa [hnot] using hfirst
      · exact ih hrest hi

theorem close_inactive {s : WiFiServerRun W} (h : Proper s)
    (hall : closesAll env (List.range maxSlots) s = true) (i : Nat) :
    (s.close env).active i = false := by
  by_cases hi : i < maxSlots
  · have hclosed := closeSlots_inactive env hall (List.mem_range.mpr hi)
    unfold close
    dsimp only
    split <;> exact hclosed
  · refine (close_shuts env s).inactive ?_
    cases hactive : s.active i with
    | false => rfl
    | true => exact absurd (Nat.lt_of_lt_of_le (h.bounded i hactive) s.server.capped) hi

theorem poll_safe {s : WiFiServerRun W} (h : Proper s) (hsafe : Safe s)
    (hrest : s.activity = .rest) : Safe (s.poll env esp) := by
  rcases poll_spec env esp h.rings with
    ⟨-, hpolled, hnone⟩ | ⟨i, m, -, -, hhandler, hset, hcall⟩
  · cases hh : s.server.handler with
    | true =>
        refine hpolled.safe hrest fun hno => ?_
        rw [hh] at hno
        cases hno
    | false =>
        rw [hnone hh]
        exact hsafe
  · rw [hcall, call, if_pos (hset.handler.trans hhandler)]
    refine ⟨WiFiActivity.noConfusion, fun _ hh => ?_⟩
    have hno : s.server.handler = false := hset.handler.symm.trans hh
    rw [hno] at hhandler
    cases hhandler

theorem returns_safe {s : WiFiServerRun W} (h : Proper s) (hsafe : Safe s)
    {callback : WiFiCallback} {i : Nat} (hactivity : s.activity = .callback callback i) :
    Safe ({ s with activity := .rest }.pollFrom env esp callback i) := by
  have hsilent := hsafe.silent (by rw [hactivity]; exact WiFiActivity.noConfusion)
  have hrings : Rings { s with activity := .rest } := h.rings
  by_cases hcallback : callback = .onClose
  · subst hcallback
    obtain ⟨m, hset, hpolled⟩ := pollFrom_onClose env esp hrings i
    refine hpolled.safe hset.activity fun hno j => ?_
    have hinactive : s.active j = false := hsilent (hset.handler.symm.trans hno) j
    cases hj : m.active j with
    | false => rfl
    | true =>
        rw [show s.active j = true from hset.of_active hj] at hinactive
        cases hinactive
  · exact (pollFrom_polled env esp hrings hcallback i).safe rfl hsilent

/-- A server that does not serve behind `listen` has only been closed. -/
theorem listen_fails {s : WiFiServerRun W} {port : UInt16} {made : Bool}
    (hno : (s.listen env port made).server.handler = false) :
    s.listen env port made = s.close env ∧ (port ≠ 0 && made) = false := by
  unfold listen at hno ⊢
  dsimp only at hno ⊢
  split
  · simp_all
  · split
    · simp_all
    · rw [if_neg (by assumption), if_neg (by assumption)] at hno
      cases hno

theorem next_safe {s t : WiFiServerRun W} {e : WiFiEvent W} (h : Proper s) (hsafe : Safe s)
    (hcloses : s.closesActive env e = true) (hnext : s.next env esp e = some t) : Safe t := by
  cases e with
  | poll =>
      simp only [next] at hnext
      split at hnext
      · rename_i hrest
        obtain rfl := Option.some.inj hnext
        exact poll_safe env esp h hsafe hrest
      · cases hnext
  | callbackReturns =>
      simp only [next] at hnext
      split at hnext
      · rename_i hactivity
        obtain rfl := Option.some.inj hnext
        exact returns_safe env esp h hsafe hactivity
      · cases hnext
  | close =>
      have hshuts := next_shuts env esp h.rings hnext (by simp) (by simp)
      obtain rfl := Option.some.inj hnext
      refine hsafe.shuts hshuts fun hne _ => ?_
      have hall : closesAll env (List.range maxSlots) s = true := by
        simpa [closesActive, hne] using hcloses
      exact close_inactive env h hall
  | listen port made =>
      have hshuts := next_shuts env esp h.rings hnext (by simp) (by simp)
      obtain rfl := Option.some.inj hnext
      refine hsafe.shuts hshuts fun hne hno => ?_
      obtain ⟨hclosed, hfails⟩ := listen_fails env hno
      have hall : closesAll env (List.range maxSlots) s = true := by
        rw [closesActive, hfails] at hcloses
        simpa [hne] using hcloses
      rw [hclosed]
      exact close_inactive env h hall
  | closeConnection i =>
      have hshuts := next_shuts env esp h.rings hnext (by simp) (by simp)
      simp only [next] at hnext
      split at hnext
      · obtain rfl := Option.some.inj hnext
        refine hsafe.shuts hshuts fun hne hno j => hshuts.inactive (hsafe.silent hne ?_ j)
        exact (closeConnection_sets env s i).handler.symm.trans hno
      · cases hnext
  | write i src =>
      have hshuts := next_shuts env esp h.rings hnext (by simp) (by simp)
      simp only [next] at hnext
      split at hnext
      · obtain rfl := Option.some.inj hnext
        refine hsafe.shuts hshuts fun hne hno j => hshuts.inactive (hsafe.silent hne ?_ j)
        exact (write_quiet env esp h.rings i src).handler.symm.trans hno
      · cases hnext
  | outside world =>
      obtain rfl := Option.some.inj hnext
      exact ⟨hsafe.defined, hsafe.silent⟩

/-! ## Runs -/

/-- In a run whose calls of `close` in a callback close all active connections, the
handler is only called while there is one. -/
theorem run_safe {s t : WiFiServerRun W} {es : List (WiFiEvent W)} (h : Proper s) (hsafe : Safe s)
    (hrun : run (restrict (closesActive env) (step env esp)) s es = some t) : Safe t := by
  have hboth : Proper t ∧ Safe t := by
    refine run_invariant (I := fun s => Proper s ∧ Safe s) ?_ ⟨h, hsafe⟩ hrun
    rintro s e t ⟨hs, hsafe⟩ hstep
    obtain ⟨hcloses, hstep⟩ := restrict_eq_some.mp hstep
    refine ⟨(step_separated env esp hs hstep).1, ?_⟩
    unfold step at hstep
    split at hstep
    · cases hstep
    · exact next_safe env esp hs hsafe hcloses hstep
  exact hboth.2

/-- In every run: two `on_accept` of a connection are separated by one `on_close`
or a call that closes it exactly if no client that comes in is given a connection
that is still active. And no null handler is called if every `close` in a
callback closes all active connections. -/
theorem lifecycle_iff {W : Type} (env : WiFiEnv W) (esp : Bool) (maxConnections : Nat) (world : W)
    {s : WiFiServerRun W} {es : List (WiFiEvent W)}
    (hrun : run (step env esp) (fresh maxConnections world) es = some s) :
    (Separated s.log
        ↔ run (restrict (givesFree env) (step env esp)) (fresh maxConnections world) es = some s)
      ∧ (run (restrict (closesActive env) (step env esp)) (fresh maxConnections world) es = some s →
          s.activity ≠ .undefined) := by
  have hfresh := proper_fresh maxConnections world
  refine ⟨?_, fun hcloses => ?_⟩
  · exact run_iff_restrict (fun _ _ _ hs hstep => step_separated env esp hs hstep) hfresh
      separated_nil hrun
  · exact (run_safe env esp hfresh ⟨WiFiActivity.noConfusion, fun hne => absurd rfl hne⟩
      hcloses).defined

/-! ### A client that converts to true while it is connected -/

/-- One client, and whether another one has come in. -/
structure OneClient where
  connected : Bool := false
  input : Bool := false
  waiting : Bool := false

/-- The conversion as on the ESP32. -/
def oneClient : WiFiEnv OneClient where
  client _ :=
    { connected := fun w => (w.connected, w)
      availableForWrite := fun w => (0, w)
      write := fun _ w => (0, w)
      write_le := fun _ _ => Nat.zero_le _ }
  converts _ w := (w.connected, w)
  available _ w := (if w.input then 1 else 0, w)
  stop _ w := { w with connected := false, input := false }
  accept w := (w.waiting, { w with waiting := false })
  assign _ w := { w with connected := true }
  stopAccepted w := w
  stopServer w := w

/-- The peer leaves between the server's two questions, and a second client takes
the connection over. -/
theorem lifecycle_iff_run :
    ∃ s : WiFiServerRun OneClient,
      run (step oneClient true) (fresh 1 {})
          [.listen 80 true, .outside { waiting := true }, .poll,
            .outside { connected := true, input := true }, .callbackReturns, .outside {},
            .callbackReturns, .callbackReturns, .outside { waiting := true }, .poll] = some s
        ∧ .called .onAccept 0 ∈ s.log.tail ∧ Separated s.log ∧ s.activity ≠ .undefined := by
  have hend : (run (restrict (givesFree oneClient) (step oneClient true)) (fresh 1 {})
      [.listen 80 true, .outside { waiting := true }, .poll,
        .outside { connected := true, input := true }, .callbackReturns, .outside {},
        .callbackReturns, .callbackReturns, .outside { waiting := true }, .poll]).map log
      = some [.called .onAccept 0, .called .onClose 0, .called .onData 0, .called .onAccept 0] :=
    rfl
  have hclosing : (run (restrict (closesActive oneClient) (step oneClient true)) (fresh 1 {})
      [.listen 80 true, .outside { waiting := true }, .poll,
        .outside { connected := true, input := true }, .callbackReturns, .outside {},
        .callbackReturns, .callbackReturns, .outside { waiting := true }, .poll]).isSome = true :=
    rfl
  obtain ⟨s, hfree, hlog⟩ := Option.map_eq_some_iff.mp hend
  obtain ⟨t, hcloses⟩ := Option.isSome_iff_exists.mp hclosing
  have hrun := run_of_restrict hfree
  -- both are the run itself
  obtain rfl := Option.some.inj (hrun.symm.trans (run_of_restrict hcloses))
  obtain ⟨hseparated, hserved⟩ := lifecycle_iff oneClient true 1 {} hrun
  refine ⟨s, hrun, ?_, hseparated.mpr hfree, hserved hcloses⟩
  rw [hlog]
  simp

/-- The peer leaves between two polls, and a second client gets its connection: there
is no `on_close`. And it leaves while `on_data` shuts down the server, which calls
`on_close` without a handler. -/
theorem lifecycle_broken :
    (∃ s : WiFiServerRun OneClient,
      run (step oneClient true) (fresh 1 {})
          [.listen 80 true, .outside { waiting := true }, .poll, .callbackReturns,
            .outside { waiting := true }, .poll] = some s ∧ ¬ Separated s.log)
      ∧ ∃ s : WiFiServerRun OneClient,
        run (step oneClient true) (fresh 1 {})
            [.listen 80 true, .outside { waiting := true }, .poll,
              .outside { connected := true, input := true }, .callbackReturns, .outside {},
              .close, .callbackReturns] = some s ∧ s.activity = .undefined := by
  constructor
  · have hend : (run (step oneClient true) (fresh 1 {})
        [.listen 80 true, .outside { waiting := true }, .poll, .callbackReturns,
          .outside { waiting := true }, .poll]).map log
        = some [.called .onAccept 0, .called .onAccept 0] := rfl
    obtain ⟨s, hrun, hlog⟩ := Option.map_eq_some_iff.mp hend
    refine ⟨s, hrun, ?_⟩
    rw [hlog, separated_cons]
    rintro ⟨-, hended⟩
    exact absurd (hended 0 rfl (List.mem_singleton.mpr rfl)) (by simp [Ended, sinceAccept])
  · have hend : (run (step oneClient true) (fresh 1 {})
        [.listen 80 true, .outside { waiting := true }, .poll,
          .outside { connected := true, input := true }, .callbackReturns, .outside {},
          .close, .callbackReturns]).map activity = some .undefined := rfl
    exact Option.map_eq_some_iff.mp hend

end WiFiServerRun

end AsyncEventLoop
