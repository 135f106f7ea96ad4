import AsyncEventLoop.ArduinoTcpServer

/-!
# The TCP client on Arduino

`ArduinoWiFiTcpClient` has one connection and the handler it was given when it
connected. Its callbacks nest: an application that connects or closes from
inside a callback of a poll is called back by that call, and the poll goes on
with what the calls have left, a new connection and another handler perhaps.

What a handler may rely on is an automaton over the callbacks and the calls of
the application, `WiFiClientSession`. The one thing it does not promise is that a
connection made inside `on_close` lives: the poll that made the callback closes
it on return, and nobody is told.
-/

namespace AsyncEventLoop

open Runs

/-! ## The client -/

/-- The `WiFiClient` of the connection. `connect` is that of the new client which the
task makes to connect, with the host and the port; `assign` makes that client the
connection's, and asks it for its peer. -/
structure WiFiClientEnv (W : Type) where
  client : WiFiClient W
  converts : W → Bool × W
  available : W → Int32 × W
  stop : W → W
  connect : List UInt8 → UInt16 → W → Bool × W
  assign : W → W

/-- The callbacks of `ITcpClientHandler`. -/
inductive WiFiClientCallback where
  | onConnect
  | onWriteReady
  | onData
  | onClose
  | onError
  deriving DecidableEq

/-- `appClosed`: the application has closed the connection, to connect again or not;
`dropped`: a poll has, behind `on_close`. -/
inductive WiFiClientNote where
  | called (callback : WiFiClientCallback) (handler : Nat)
  | connectReturned (ok : Bool)
  | appClosed
  | dropped
  deriving DecidableEq

/-- `ArduinoWiFiTcpClient`. `frames` are the callbacks that have not returned, the
innermost first; `undefined`: a null pointer was dereferenced, or the output ring left.
The newest note comes first. -/
structure WiFiClientRun (W : Type) where
  connection : ArduinoWiFiTcpConnection := { tx := Vector.replicate txCapacity 0 }
  handler : Option Nat := none
  world : W
  frames : List WiFiClientCallback := []
  undefined : Bool := false
  log : List WiFiClientNote := []

namespace WiFiClientRun

variable {W : Type}

def fresh (world : W) : WiFiClientRun W := { world := world }

def ask {α : Type} (call : W → α × W) (s : WiFiClientRun W) : α × WiFiClientRun W :=
  ((call s.world).1, { s with world := (call s.world).2 })

def note (s : WiFiClientRun W) (n : WiFiClientNote) : WiFiClientRun W :=
  { s with log := n :: s.log }

/-- A callback of the handler `handler`. -/
def callOn (s : WiFiClientRun W) (handler : Nat) (callback : WiFiClientCallback) :
    WiFiClientRun W :=
  { s.note (.called callback handler) with frames := callback :: s.frames }

/-- `handler_->` a callback. -/
def call (s : WiFiClientRun W) (callback : WiFiClientCallback) : WiFiClientRun W :=
  match s.handler with
  | some handler => s.callOn handler callback
  | none => { s with undefined := true }

variable (env : WiFiClientEnv W) (esp : Bool)

/-! ### The connection -/

/-- `valid`, which is also the task's. -/
def valid (s : WiFiClientRun W) : Bool × WiFiClientRun W :=
  if s.connection.active then s.ask env.converts else (false, s)

def inputSize (s : WiFiClientRun W) : Nat × WiFiClientRun W :=
  if s.connection.active then
    let n := s.ask env.available
    (n.1.toUInt32.toNat, n.2)
  else (0, s)

def closedByPeer (s : WiFiClientRun W) : Bool × WiFiClientRun W :=
  if s.connection.active then
    let connected := s.ask env.client.connected
    if connected.1 then (false, connected.2)
    else
      let n := connected.2.ask env.available
      (n.1 == 0, n.2)
  else (false, s)

def closeConnection (s : WiFiClientRun W) : WiFiClientRun W :=
  let stopped := if s.connection.active then { s with world := env.stop s.world } else s
  { stopped with connection := s.connection.closed }

def attach (s : WiFiClientRun W) : WiFiClientRun W :=
  let s := s.closeConnection env
  let s := { s with connection := s.connection.attach, world := env.assign s.world }
  (s.valid env).2

def output (s : WiFiClientRun W) : TxState W :=
  { connection := s.connection, accepted := s.connection.queued, world := s.world }

def withOutput (s : WiFiClientRun W) (t : TxState W) : WiFiClientRun W :=
  { s with connection := t.connection, world := t.world }

/-- `write` of the connection. -/
def write (s : WiFiClientRun W) (src : List UInt8) : WiFiClientRun W :=
  match s.output.write env.client esp src with
  | none => { s with undefined := true }
  | some (_, t) => s.withOutput t

/-! ### `close` and `connect` -/

def close (s : WiFiClientRun W) : WiFiClientRun W :=
  { (s.closeConnection env).note .appClosed with handler := none }

/-- `connect` up to the callback it ends in; `none` is a host that is null. -/
def connect (s : WiFiClientRun W) (host : Option (List UInt8)) (port : UInt16) (handler : Nat) :
    WiFiClientRun W :=
  let s := s.close env
  match host with
  | none => s.callOn handler .onError
  | some host =>
      if port = 0 then s.callOn handler .onError
      else
        let connected := s.ask (env.connect host port)
        if !connected.1 then connected.2.callOn handler .onError
        else { connected.2.attach env with handler := some handler }.call .onConnect

/-! ### `poll` -/

def checkClosed (s : WiFiClientRun W) : WiFiClientRun W :=
  let closed := s.closedByPeer env
  if closed.1 then closed.2.call .onClose else closed.2

def checkInput (s : WiFiClientRun W) : WiFiClientRun W :=
  let size := s.inputSize env
  if size.1 > 0 then size.2.call .onData else size.2.checkClosed env

def poll (s : WiFiClientRun W) : WiFiClientRun W :=
  if s.handler.isNone then s
  else
    let valid := s.valid env
    if !valid.1 then valid.2
    else
      match valid.2.output.flushOutput env.client esp with
      | none => { valid.2 with undefined := true }
      | some (flushed, t) =>
          if flushed > 0 then (valid.2.withOutput t).call .onWriteReady
          else (valid.2.withOutput t).checkInput env

/-- What its caller does behind a callback. -/
def resume (s : WiFiClientRun W) : WiFiClientCallback → WiFiClientRun W
  | .onConnect => s.note (.connectReturned true)
  | .onError => s.note (.connectReturned false)
  | .onWriteReady => s.checkInput env
  | .onData => s.checkClosed env
  | .onClose => { (s.closeConnection env).note .dropped with handler := none }

end WiFiClientRun

/-- `closeConnection` is the connection's own `close`, which leaves the handler;
`outside`: anything else that changes the client. -/
inductive WiFiClientEvent (W : Type) where
  | poll
  | callbackReturns
  | connect (host : Option (List UInt8)) (port : UInt16) (handler : Nat)
  | close
  | closeConnection
  | write (src : List UInt8)
  | outside (world : W)

namespace WiFiClientRun

variable {W : Type} (env : WiFiClientEnv W) (esp : Bool)

def next (s : WiFiClientRun W) : WiFiClientEvent W → Option (WiFiClientRun W)
  | .poll => some (s.poll env esp)
  | .callbackReturns =>
      match s.frames with
      | [] => none
      | callback :: frames => some ({ s with frames := frames }.resume env callback)
  | .connect host port handler => some (s.connect env host port handler)
  | .close => some (s.close env)
  | .closeConnection => some ((s.closeConnection env).note .appClosed)
  | .write src => some (s.write env esp src)
  | .outside world => some { s with world := world }

/-- Any call may come from inside any callback, a poll too. -/
def step (s : WiFiClientRun W) (e : WiFiClientEvent W) : Option (WiFiClientRun W) :=
  if s.undefined then none else s.next env esp e

/-- Polls are not nested: the loop runs none from inside a callback. -/
def flatPoll (s : WiFiClientRun W) : WiFiClientEvent W → Bool
  | .poll => s.frames.isEmpty
  | _ => true

end WiFiClientRun

/-! ## What a handler may rely on -/

/-- Between two calls of the application: no connection, or that of a handler. Inside
`on_close`: the connection that has ended, none, or one made since. -/
inductive WiFiClientSession where
  | idle
  | live (handler : Nat)
  | ending (handler : Nat)
  | ended
  | again (handler : Nat)
  deriving DecidableEq

namespace WiFiClientSession

/-- A connection is announced, has its data and its room announced to the same handler,
and ends by `on_close` or by the application. From `on_close` on no callback of a poll is
made until it has returned. -/
def next : WiFiClientSession → WiFiClientNote → Option WiFiClientSession
  | s, .called .onError _ => some s
  | s, .connectReturned _ => some s
  | .idle, .called .onConnect handler => some (.live handler)
  | .live owner, .called .onWriteReady handler =>
      if owner = handler then some (.live owner) else none
  | .live owner, .called .onData handler =>
      if owner = handler then some (.live owner) else none
  | .live owner, .called .onClose handler =>
      if owner = handler then some (.ending owner) else none
  | .idle, .appClosed => some .idle
  | .live _, .appClosed => some .idle
  | .ended, .called .onConnect handler => some (.again handler)
  | .ending _, .appClosed => some .ended
  | .ended, .appClosed => some .ended
  | .again _, .appClosed => some .ended
  | .ending _, .dropped => some .idle
  | .ended, .dropped => some .idle
  | .again _, .dropped => some .idle
  | _, _ => none

/-- The session behind all that was noted, if it is one. -/
def after : List WiFiClientNote → Option WiFiClientSession
  | [] => some .idle
  | n :: log => (after log).bind (·.next n)

end WiFiClientSession

namespace WiFiClientRun

open ArduinoWiFiTcpConnection

variable {W : Type} {s t u : WiFiClientRun W}

/-! ## What the functions do -/

/-- Nothing has changed but the client and the queued output. -/
structure Quiet (s t : WiFiClientRun W) : Prop where
  active : t.connection.active = s.connection.active
  handler : t.handler = s.handler
  frames : t.frames = s.frames
  undefined : t.undefined = s.undefined
  log : t.log = s.log
  ring : InRing s.connection → InRing t.connection

theorem Quiet.refl (s : WiFiClientRun W) : Quiet s s := ⟨rfl, rfl, rfl, rfl, rfl, id⟩

theorem Quiet.trans (h : Quiet s t) (h' : Quiet t u) : Quiet s u where
  active := h'.active.trans h.active
  handler := h'.handler.trans h.handler
  frames := h'.frames.trans h.frames
  undefined := h'.undefined.trans h.undefined
  log := h'.log.trans h.log
  ring := h'.ring ∘ h.ring

theorem quiet_world (s : WiFiClientRun W) (world : W) : Quiet s { s with world := world } :=
  ⟨rfl, rfl, rfl, rfl, rfl, id⟩

theorem output_sound (h : InRing s.connection) : s.output.Sound where
  now := ⟨h, List.nil_append _⟩
  points := List.forall_mem_nil _

theorem withOutput_quiet (s : WiFiClientRun W) {out : TxState W} (hring : InRing out.connection)
    (hactive : out.connection.active = s.connection.active) : Quiet s (s.withOutput out) :=
  ⟨hactive, rfl, rfl, rfl, rfl, fun _ => hring⟩

variable (env : WiFiClientEnv W) (esp : Bool)

theorem valid_spec (s : WiFiClientRun W) :
    Quiet s (s.valid env).2 ∧ ((s.valid env).1 = true → s.connection.active = true) := by
  unfold valid
  split
  · rename_i hactive
    exact ⟨quiet_world s _, fun _ => hactive⟩
  · exact ⟨.refl s, fun h => absurd h Bool.false_ne_true⟩

theorem inputSize_spec (s : WiFiClientRun W) :
    Quiet s (s.inputSize env).2 ∧ ((s.inputSize env).1 > 0 → s.connection.active = true) := by
  unfold inputSize
  split
  · rename_i hactive
    exact ⟨quiet_world s _, fun _ => hactive⟩
  · exact ⟨.refl s, fun h => absurd h (Nat.lt_irrefl 0)⟩

theorem closedByPeer_spec (s : WiFiClientRun W) :
    Quiet s (s.closedByPeer env).2
      ∧ ((s.closedByPeer env).1 = true → s.connection.active = true) := by
  unfold closedByPeer
  dsimp only
  split_ifs with hactive
  · exact ⟨quiet_world s _, fun _ => hactive⟩
  · exact ⟨(quiet_world s _).trans (quiet_world _ _), fun _ => hactive⟩
  · exact ⟨.refl s, False.elim⟩

theorem flushOutput_quiet (h : InRing s.connection) :
    ∃ flushed out, s.output.flushOutput env.client esp = some (flushed, out)
      ∧ Quiet s (s.withOutput out) := by
  obtain ⟨flushed, out, hflush, hsound, -, hactive⟩ :=
    TxState.flushOutput_spec env.client esp (output_sound h)
  exact ⟨flushed, out, hflush, withOutput_quiet s hsound.now.toInRing hactive⟩

theorem write_quiet (h : InRing s.connection) (src : List UInt8) :
    Quiet s (s.write env esp src) := by
  unfold write
  cases hactive : s.connection.active with
  | true =>
      obtain ⟨-, n, out, -, hwrite, -, -, hsound, hkept⟩ :=
        TxState.write_spec env.client esp (output_sound h) hactive src
      rw [hwrite]
      exact withOutput_quiet s hsound.now.toInRing (hkept.trans hactive.symm)
  | false =>
      have hwrite : s.output.write env.client esp src = some (0, s.output) := by
        simp [TxState.write, output, hactive]
      rw [hwrite]
      exact withOutput_quiet s h rfl

/-! ### Polls -/

/-- The callbacks a poll makes. -/
def ofPoll : WiFiClientCallback → Bool
  | .onWriteReady | .onData | .onClose => true
  | .onConnect | .onError => false

/-- What a poll, or the rest of one, does up to its next callback: it makes none, or one of
a connection that is in use. -/
inductive Polled (s : WiFiClientRun W) : WiFiClientRun W → Prop where
  | quiet {t : WiFiClientRun W} (h : Quiet s t) : Polled s t
  | calls {m : WiFiClientRun W} (h : Quiet s m) (hactive : s.connection.active = true)
      {callback : WiFiClientCallback} (hof : ofPoll callback = true) : Polled s (m.call callback)

theorem Quiet.polled (h : Quiet s t) (hp : Polled t u) : Polled s u := by
  cases hp with
  | quiet h' => exact .quiet (h.trans h')
  | calls h' hactive hof => exact .calls (h.trans h') (h.active.symm.trans hactive) hof

theorem checkClosed_polled (s : WiFiClientRun W) : Polled s (s.checkClosed env) := by
  obtain ⟨hquiet, hactive⟩ := closedByPeer_spec env s
  unfold checkClosed
  dsimp only
  split
  · rename_i hclosed
    exact .calls hquiet (hactive hclosed) rfl
  · exact .quiet hquiet

theorem checkInput_polled (s : WiFiClientRun W) : Polled s (s.checkInput env) := by
  obtain ⟨hquiet, hactive⟩ := inputSize_spec env s
  unfold checkInput
  dsimp only
  split
  · rename_i hsize
    exact .calls hquiet (hactive hsize) rfl
  · exact hquiet.polled (checkClosed_polled env _)

theorem poll_polled (h : InRing s.connection) : Polled s (s.poll env esp) := by
  obtain ⟨hvalid, hactive⟩ := valid_spec env s
  unfold poll
  dsimp only
  split
  · exact .quiet (.refl s)
  · split
    · exact .quiet hvalid
    · rename_i hv
      rw [Bool.not_eq_true, Bool.not_eq_false'] at hv
      obtain ⟨flushed, out, hflush, hquiet⟩ := flushOutput_quiet env esp (hvalid.ring h)
      rw [hflush]
      dsimp only
      split
      · exact .calls (hvalid.trans hquiet) (hactive hv) rfl
      · exact (hvalid.trans hquiet).polled (checkInput_polled env _)

/-! ## The handler -/

/-- A connection in use has a handler, and nothing undefined has happened. -/
structure Kept (s : WiFiClientRun W) : Prop where
  ring : InRing s.connection
  handler : s.connection.active = true → ∃ handler, s.handler = some handler
  defined : s.undefined = false

theorem kept_fresh (world : W) : Kept (fresh world) :=
  ⟨⟨(by decide : 0 < txCapacity), Nat.zero_le _⟩, fun h => absurd h Bool.false_ne_true, rfl⟩

theorem Kept.quiet (h : Kept s) (hq : Quiet s t) : Kept t :=
  ⟨hq.ring h.ring, fun hactive => hq.handler ▸ h.handler (hq.active ▸ hactive),
    hq.undefined.trans h.defined⟩

/-- `handler_->` a callback, while the connection is in use. -/
theorem Kept.call (h : Kept s) (hactive : s.connection.active = true)
    (callback : WiFiClientCallback) :
    ∃ handler, s.handler = some handler ∧ s.call callback = s.callOn handler callback := by
  obtain ⟨handler, hhandler⟩ := h.handler hactive
  exact ⟨handler, hhandler, by rw [WiFiClientRun.call, hhandler]⟩

theorem Kept.callOn (h : Kept s) (handler : Nat) (callback : WiFiClientCallback) :
    Kept (s.callOn handler callback) := ⟨h.ring, h.handler, h.defined⟩

theorem Polled.kept (hp : Polled s t) (h : Kept s) : Kept t := by
  cases hp with
  | quiet hq => exact h.quiet hq
  | calls hq hactive _ =>
      have hm := h.quiet hq
      obtain ⟨handler, -, hcall⟩ := hm.call (hq.active.trans hactive) _
      rw [hcall]
      exact hm.callOn handler _

/-- The connection is as `active` says, with an empty ring, and `notes` have been made. -/
structure Becomes (s : WiFiClientRun W) (active : Bool) (notes : List WiFiClientNote)
    (t : WiFiClientRun W) : Prop where
  active : t.connection.active = active
  ring : InRing t.connection
  frames : t.frames = s.frames
  undefined : t.undefined = s.undefined
  log : t.log = notes ++ s.log

theorem closeConnection_spec (s : WiFiClientRun W) :
    Becomes s false [] (s.closeConnection env) ∧ (s.closeConnection env).handler = s.handler := by
  unfold closeConnection
  dsimp only
  split <;> exact ⟨⟨rfl, ⟨(by decide : 0 < txCapacity), Nat.zero_le _⟩, rfl, rfl, rfl⟩, rfl⟩

theorem close_spec (s : WiFiClientRun W) : Becomes s false [.appClosed] (s.close env) := by
  have h := (closeConnection_spec env s).1
  exact ⟨h.active, h.ring, h.frames, h.undefined,
    congrArg (List.cons WiFiClientNote.appClosed) h.log⟩

theorem attach_spec (s : WiFiClientRun W) : Becomes s true [] (s.attach env) := by
  have h := (closeConnection_spec env s).1
  have hq := (valid_spec env { s.closeConnection env with
    connection := (s.closeConnection env).connection.attach
    world := env.assign (s.closeConnection env).world }).1
  exact ⟨hq.active, hq.ring ⟨(by decide : 0 < txCapacity), Nat.zero_le _⟩,
    hq.frames.trans h.frames, hq.undefined.trans h.undefined, hq.log.trans h.log⟩

/-- What `connect` comes to: a connection that is closed, or a new one for the handler. -/
inductive Connects (s : WiFiClientRun W) (handler : Nat) : WiFiClientRun W → Prop where
  | fails {m : WiFiClientRun W} (h : Becomes s false [.appClosed] m) :
      Connects s handler (m.callOn handler .onError)
  | connects {m : WiFiClientRun W} (h : Becomes s true [.appClosed] m)
      (hhandler : m.handler = some handler) : Connects s handler (m.callOn handler .onConnect)

theorem connect_connects (s : WiFiClientRun W) (host : Option (List UInt8)) (port : UInt16)
    (handler : Nat) : Connects s handler (s.connect env host port handler) := by
  have hclose := close_spec env s
  cases host with
  | none => exact .fails hclose
  | some host =>
      unfold connect
      dsimp only
      split
      · exact .fails hclose
      · split
        · exact .fails ⟨hclose.active, hclose.ring, hclose.frames, hclose.undefined, hclose.log⟩
        · have hattach := attach_spec env ((s.close env).ask (env.connect host port)).2
          exact .connects (m := { ((s.close env).ask (env.connect host port)).2.attach env with
            handler := some handler }) ⟨hattach.active, hattach.ring,
              hattach.frames.trans hclose.frames, hattach.undefined.trans hclose.undefined,
              hattach.log.trans hclose.log⟩ rfl

theorem Becomes.kept {active : Bool} {notes : List WiFiClientNote} (hb : Becomes s active notes t)
    (h : Kept s) (hhandler : active = true → ∃ handler, t.handler = some handler) : Kept t :=
  ⟨hb.ring, fun hactive => hhandler (hb.active.symm.trans hactive), hb.undefined.trans h.defined⟩

/-- What is behind a callback. -/
theorem resume_kept (h : Kept s) (callback : WiFiClientCallback) :
    Kept (s.resume env callback) := by
  cases callback with
  | onConnect | onError => exact ⟨h.ring, h.handler, h.defined⟩
  | onWriteReady => exact (checkInput_polled env s).kept h
  | onData => exact (checkClosed_polled env s).kept h
  | onClose =>
      have hclosed := (closeConnection_spec env s).1
      exact ⟨hclosed.ring, fun hactive => absurd (hclosed.active.symm.trans hactive)
        Bool.false_ne_true, hclosed.undefined.trans h.defined⟩

/-- **The handler is there**, whatever calls come from inside the callbacks. -/
theorem step_kept {e : WiFiClientEvent W} (h : Kept s) (hstep : s.step env esp e = some t) :
    Kept t := by
  rw [step, h.defined] at hstep
  cases e with
  | poll =>
      obtain rfl := Option.some.inj hstep
      exact (poll_polled env esp h.ring).kept h
  | callbackReturns =>
      unfold next at hstep
      dsimp only at hstep
      cases hframes : s.frames with
      | nil =>
          rw [hframes] at hstep
          cases hstep
      | cons callback frames =>
          rw [hframes] at hstep
          obtain rfl := Option.some.inj hstep
          have hpopped : Kept { s with frames := frames } := ⟨h.ring, h.handler, h.defined⟩
          exact resume_kept env hpopped callback
  | connect host port handler =>
      have hconnects : Connects s handler t :=
        Option.some.inj hstep ▸ connect_connects env s host port handler
      cases hconnects with
      | fails hm => exact (hm.kept h fun hf => absurd hf Bool.false_ne_true).callOn handler _
      | connects hm hhandler => exact (hm.kept h fun _ => ⟨_, hhandler⟩).callOn handler _
  | close =>
      obtain rfl := Option.some.inj hstep
      exact (close_spec env s).kept h fun hf => absurd hf Bool.false_ne_true
  | closeConnection =>
      obtain rfl := Option.some.inj hstep
      have hclosed := (closeConnection_spec env s).1.kept h fun hf => absurd hf Bool.false_ne_true
      exact ⟨hclosed.ring, hclosed.handler, hclosed.defined⟩
  | write src =>
      obtain rfl := Option.some.inj hstep
      exact h.quiet (write_quiet env esp h.ring src)
  | outside world =>
      obtain rfl := Option.some.inj hstep
      exact h.quiet (quiet_world s world)

/-! ## Sessions -/

/-- Inside `on_close`: the outermost callback is one. -/
def inClose (s : WiFiClientRun W) : Bool := s.frames.getLast? = some .onClose

theorem inClose_of_frames {frames : List WiFiClientCallback} (h : s.frames = frames) :
    s.inClose = decide (frames.getLast? = some .onClose) := by
  rw [inClose, h]

/-- What the session says of the connection, the handler and the callbacks. -/
inductive Linked (s : WiFiClientRun W) : WiFiClientSession → Prop where
  | idle (hactive : s.connection.active = false) (hclose : s.inClose = false) : Linked s .idle
  | live {handler : Nat} (hactive : s.connection.active = true)
      (hhandler : s.handler = some handler) (hclose : s.inClose = false) :
      Linked s (.live handler)
  | ending {handler : Nat} (hactive : s.connection.active = true)
      (hhandler : s.handler = some handler) (hclose : s.inClose = true) :
      Linked s (.ending handler)
  | ended (hactive : s.connection.active = false) (hclose : s.inClose = true) : Linked s .ended
  | again {handler : Nat} (hactive : s.connection.active = true)
      (hhandler : s.handler = some handler) (hclose : s.inClose = true) :
      Linked s (.again handler)

/-- Where polls are not nested: only the outermost callback is one of a poll, and the
session behind the log is that of the state. -/
structure InSession (s : WiFiClientRun W) (session : WiFiClientSession) : Prop where
  kept : Kept s
  frames : ∀ callback ∈ s.frames.dropLast, ofPoll callback = false
  after : WiFiClientSession.after s.log = some session
  linked : Linked s session

theorem inSession_fresh (world : W) : InSession (fresh world) .idle :=
  ⟨kept_fresh world, List.forall_mem_nil _, rfl, .idle rfl rfl⟩

variable {session : WiFiClientSession}

theorem Linked.congr (h : Linked s session) (hactive : t.connection.active = s.connection.active)
    (hhandler : t.handler = s.handler) (hclose : t.inClose = s.inClose) : Linked t session := by
  cases h with
  | idle ha hc => exact .idle (hactive.trans ha) (hclose.trans hc)
  | live ha hh hc => exact .live (hactive.trans ha) (hhandler.trans hh) (hclose.trans hc)
  | ending ha hh hc => exact .ending (hactive.trans ha) (hhandler.trans hh) (hclose.trans hc)
  | ended ha hc => exact .ended (hactive.trans ha) (hclose.trans hc)
  | again ha hh hc => exact .again (hactive.trans ha) (hhandler.trans hh) (hclose.trans hc)

theorem InSession.quiet (h : InSession s session) (hq : Quiet s t) : InSession t session :=
  ⟨h.kept.quiet hq, hq.frames ▸ h.frames, hq.log ▸ h.after,
    h.linked.congr hq.active hq.handler (by rw [inClose, hq.frames, inClose])⟩

/-- A callback of a call of the application, which is inside all others. -/
theorem frames_push (callback : WiFiClientCallback) {frames : List WiFiClientCallback}
    (hof : ofPoll callback = false) (h : ∀ f ∈ frames.dropLast, ofPoll f = false) :
    (∀ f ∈ (callback :: frames).dropLast, ofPoll f = false)
      ∧ ((callback :: frames).getLast? = some .onClose ↔ frames.getLast? = some .onClose) := by
  cases frames with
  | nil =>
      refine ⟨List.forall_mem_nil _, ?_⟩
      cases callback <;> simp [ofPoll] at hof ⊢
  | cons f frames =>
      rw [List.dropLast_cons_cons, List.getLast?_cons_cons]
      exact ⟨List.forall_mem_cons.mpr ⟨hof, h⟩, Iff.rfl⟩

/-- The application closes the connection. -/
theorem InSession.appClosed (h : InSession s session) (hb : Becomes s false [.appClosed] t) :
    ∃ session', InSession t session' := by
  have hkept : Kept t := hb.kept h.kept fun hf => absurd hf Bool.false_ne_true
  have hframes : ∀ callback ∈ t.frames.dropLast, ofPoll callback = false := hb.frames ▸ h.frames
  have hclose : t.inClose = s.inClose := by rw [inClose, hb.frames, inClose]
  have hafter : WiFiClientSession.after t.log = session.next .appClosed := by
    rw [hb.log, List.singleton_append, WiFiClientSession.after, h.after, Option.bind_some]
  cases h.linked with
  | idle _ hc | live _ _ hc =>
      exact ⟨.idle, hkept, hframes, hafter, .idle hb.active (hclose.trans hc)⟩
  | ending _ _ hc | ended _ hc | again _ _ hc =>
      exact ⟨.ended, hkept, hframes, hafter, .ended hb.active (hclose.trans hc)⟩

/-- A callback that leaves the session as it is. -/
theorem InSession.onError (h : InSession s session) (handler : Nat) :
    InSession (s.callOn handler .onError) session := by
  obtain ⟨hframes, hlast⟩ := frames_push .onError rfl h.frames
  refine ⟨h.kept.callOn handler _, hframes, ?_, h.linked.congr rfl rfl (decide_eq_decide.mpr hlast)⟩
  show (WiFiClientSession.after s.log).bind _ = _
  rw [h.after]
  cases session <;> rfl

/-- A new connection. -/
theorem InSession.connects (h : InSession s session) (hb : Becomes s true [.appClosed] t)
    {handler : Nat} (hhandler : t.handler = some handler) :
    ∃ session', InSession (t.callOn handler .onConnect) session' := by
  obtain ⟨hframes, hlast⟩ := frames_push .onConnect rfl h.frames
  have hkept : Kept t := hb.kept h.kept fun _ => ⟨_, hhandler⟩
  have hcalled : (t.callOn handler .onConnect).frames = .onConnect :: s.frames :=
    congrArg (List.cons WiFiClientCallback.onConnect) hb.frames
  have hclose : (t.callOn handler .onConnect).inClose = s.inClose :=
    (inClose_of_frames hcalled).trans (decide_eq_decide.mpr hlast)
  have hpushed : ∀ f ∈ (t.callOn handler .onConnect).frames.dropLast, ofPoll f = false :=
    hcalled ▸ hframes
  have hafter : WiFiClientSession.after (t.callOn handler .onConnect).log
      = (session.next .appClosed).bind (·.next (.called .onConnect handler)) := by
    show (WiFiClientSession.after t.log).bind _ = _
    rw [hb.log, List.singleton_append, WiFiClientSession.after, h.after, Option.bind_some]
  cases h.linked with
  | idle _ hc | live _ _ hc =>
      exact ⟨.live handler, hkept.callOn handler _, hpushed, hafter,
        .live hb.active hhandler (hclose.trans hc)⟩
  | ending _ _ hc | ended _ hc | again _ _ hc =>
      exact ⟨.again handler, hkept.callOn handler _, hpushed, hafter,
        .again hb.active hhandler (hclose.trans hc)⟩

/-- The rest of a poll, with no callback around it. -/
theorem InSession.polled (h : InSession s session) (hframes : s.frames = []) (hp : Polled s t) :
    ∃ session', InSession t session' := by
  cases hp with
  | quiet hq => exact ⟨session, h.quiet hq⟩
  | @calls m hq hactive callback hof =>
      have hm := h.quiet hq
      have hmactive := hq.active.trans hactive
      have hmframes : m.frames = [] := hq.frames.trans hframes
      obtain ⟨handler, hhandler, hcall⟩ := hm.kept.call hmactive callback
      rw [hcall]
      have hkept := hm.kept.callOn handler callback
      have hout : m.inClose = false := by rw [inClose, hmframes]; rfl
      -- there is no callback around, so the connection in use is a live one
      obtain ⟨rfl⟩ : session = .live handler := by
        cases hm.linked with
        | idle ha _ | ended ha _ => exact absurd (ha.symm.trans hmactive) Bool.false_ne_true
        | live _ hh _ => rw [Option.some.inj (hh.symm.trans hhandler)]
        | ending _ _ hc | again _ _ hc => exact absurd (hout.symm.trans hc) Bool.false_ne_true
      have hcalled : (m.callOn handler callback).frames = [callback] :=
        congrArg (List.cons callback) hmframes
      have hlast : ∀ f ∈ (m.callOn handler callback).frames.dropLast, ofPoll f = false := by
        rw [hcalled]
        exact List.forall_mem_nil _
      have hafter : WiFiClientSession.after (m.callOn handler callback).log
          = (WiFiClientSession.live handler).next (.called callback handler) := by
        show (WiFiClientSession.after m.log).bind _ = _
        rw [hm.after, Option.bind_some]
      have hclose := inClose_of_frames hcalled
      cases callback with
      | onWriteReady | onData =>
          exact ⟨.live handler, hkept, hlast, hafter.trans (if_pos rfl),
            .live hmactive hhandler hclose⟩
      | onClose =>
          exact ⟨.ending handler, hkept, hlast, hafter.trans (if_pos rfl),
            .ending hmactive hhandler hclose⟩
      | onConnect | onError => cases hof

/-- A call of the application returns into the callback it was made from. -/
theorem InSession.returned (h : InSession s session) {callback : WiFiClientCallback}
    {frames : List WiFiClientCallback} (hs : s.frames = callback :: frames)
    (hof : ofPoll callback = false) (ok : Bool) :
    InSession ({ s with frames := frames }.note (.connectReturned ok)) session := by
  have hrest : ∀ f ∈ frames.dropLast, ofPoll f = false := by
    intro f hf
    have hframes := h.frames
    rw [hs] at hframes
    cases frames with
    | nil => cases hf
    | cons g frames => exact hframes f (List.mem_cons_of_mem _ hf)
  have hclose : s.inClose = decide (frames.getLast? = some .onClose) :=
    (inClose_of_frames hs).trans (decide_eq_decide.mpr (frames_push callback hof hrest).2)
  refine ⟨⟨h.kept.ring, h.kept.handler, h.kept.defined⟩, hrest, ?_,
    h.linked.congr rfl rfl hclose.symm⟩
  show (WiFiClientSession.after s.log).bind _ = _
  rw [h.after]
  cases session <;> rfl

/-- Behind a callback of a poll, which no other is around. -/
theorem InSession.resumed (h : InSession s session) {callback : WiFiClientCallback}
    (hs : s.frames = [callback]) (hof : ofPoll callback = true) :
    ∃ session', InSession ({ s with frames := [] }.resume env callback) session' := by
  have hclose := inClose_of_frames hs
  have hpopped (hother : s.inClose = false) : InSession { s with frames := [] } session :=
    ⟨⟨h.kept.ring, h.kept.handler, h.kept.defined⟩, List.forall_mem_nil _, h.after,
      h.linked.congr rfl rfl hother.symm⟩
  cases callback with
  | onConnect | onError => cases hof
  | onWriteReady => exact (hpopped hclose).polled rfl (checkInput_polled env _)
  | onData => exact (hpopped hclose).polled rfl (checkClosed_polled env _)
  | onClose =>
      have hclosed := (closeConnection_spec env { s with frames := [] }).1
      have hafter : WiFiClientSession.after ({ s with frames := [] }.resume env .onClose).log
          = session.next .dropped := by
        show (WiFiClientSession.after ({ s with frames := [] }.closeConnection env).log).bind _ = _
        rw [hclosed.log, List.nil_append, h.after, Option.bind_some]
      have hidle : Linked ({ s with frames := [] }.resume env .onClose) .idle :=
        .idle hclosed.active (inClose_of_frames hclosed.frames)
      have hkept := resume_kept env (s := { s with frames := [] })
        ⟨h.kept.ring, h.kept.handler, h.kept.defined⟩ .onClose
      have hframes : ∀ f ∈ ({ s with frames := [] }.resume env .onClose).frames.dropLast,
          ofPoll f = false := by
        have hnone : ({ s with frames := [] }.resume env .onClose).frames = [] := hclosed.frames
        rw [hnone]
        exact List.forall_mem_nil _
      cases h.linked with
      | idle _ hc | live _ _ hc => exact absurd (hc.symm.trans hclose) Bool.false_ne_true
      | ending _ _ _ | ended _ _ | again _ _ _ => exact ⟨.idle, hkept, hframes, hafter, hidle⟩

/-- **The step lemma.** -/
theorem step_inSession {e : WiFiClientEvent W} (h : InSession s session)
    (hflat : s.flatPoll e = true) (hstep : s.step env esp e = some t) :
    ∃ session', InSession t session' := by
  rw [step, h.kept.defined] at hstep
  cases e with
  | poll =>
      obtain rfl := Option.some.inj hstep
      exact h.polled (List.isEmpty_iff.mp hflat) (poll_polled env esp h.kept.ring)
  | callbackReturns =>
      unfold next at hstep
      dsimp only at hstep
      cases hframes : s.frames with
      | nil =>
          rw [hframes] at hstep
          cases hstep
      | cons callback frames =>
          rw [hframes] at hstep
          obtain rfl := Option.some.inj hstep
          cases hof : ofPoll callback with
          | false =>
              cases callback with
              | onConnect => exact ⟨session, h.returned hframes hof true⟩
              | onError => exact ⟨session, h.returned hframes hof false⟩
              | onWriteReady | onData | onClose => cases hof
          | true =>
              cases frames with
              | nil => exact h.resumed env hframes hof
              | cons f frames =>
                  -- it would be inside another callback
                  have hnested := h.frames callback (by rw [hframes]; exact List.mem_cons_self)
                  exact absurd (hof.symm.trans hnested) Bool.false_ne_true.symm
  | connect host port handler =>
      have hconnects : Connects s handler t :=
        Option.some.inj hstep ▸ connect_connects env s host port handler
      cases hconnects with
      | fails hm =>
          obtain ⟨session', hclosed⟩ := h.appClosed hm
          exact ⟨session', hclosed.onError handler⟩
      | connects hm hhandler => exact h.connects hm hhandler
  | close =>
      obtain rfl := Option.some.inj hstep
      exact h.appClosed (close_spec env s)
  | closeConnection =>
      obtain rfl := Option.some.inj hstep
      have hclosed := (closeConnection_spec env s).1
      exact h.appClosed ⟨hclosed.active, hclosed.ring, hclosed.frames, hclosed.undefined,
        congrArg (List.cons WiFiClientNote.appClosed) hclosed.log⟩
  | write src =>
      obtain rfl := Option.some.inj hstep
      exact ⟨session, h.quiet (write_quiet env esp h.kept.ring src)⟩
  | outside world =>
      obtain rfl := Option.some.inj hstep
      exact ⟨session, h.quiet (quiet_world s world)⟩

/-- **The client keeps to the sessions its handlers rely on.** In every run, with any
nesting of calls and callbacks, no callback goes to a null handler and the output ring is
never left. Where polls are not nested, the callbacks of each connection go to the handler
it was made for, between its `on_connect` and its end, which is one `on_close` or a call of
the application; only a connection made inside `on_close` ends without a word, and it has
had no callback but its `on_connect`. -/
theorem client_sessions {W : Type} (env : WiFiClientEnv W) (esp : Bool) (world : W)
    (es : List (WiFiClientEvent W)) {t : WiFiClientRun W}
    (hrun : run (step env esp) (fresh world) es = some t) :
    t.undefined = false
      ∧ (run (restrict flatPoll (step env esp)) (fresh world) es = some t →
        ∃ session, WiFiClientSession.after t.log = some session ∧ Linked t session) := by
  constructor
  · have hkept : Kept t :=
      run_invariant (fun _ _ _ h hstep => step_kept env esp h hstep) (kept_fresh world) hrun
    exact hkept.defined
  · intro hflat
    have hin : ∃ session, InSession t session := by
      refine run_invariant (I := fun s => ∃ session, InSession s session) ?_
        ⟨.idle, inSession_fresh world⟩ hflat
      rintro s e s' ⟨session, h⟩ hs
      obtain ⟨hc, hstep⟩ := restrict_eq_some.mp hs
      exact step_inSession env esp h hc hstep
    obtain ⟨session, h⟩ := hin
    exact ⟨session, h.after, h.linked⟩

/-! ### A client whose connection ends -/

open WiFiServerRun (OneClient oneClient)

/-- Its conversion to true does not ask for the connection. -/
def clientOfOne : WiFiClientEnv OneClient where
  client := oneClient.client 0
  converts w := (true, w)
  available := oneClient.available 0
  stop := oneClient.stop 0
  connect _ _ w := (true, { w with connected := true })
  assign w := w

/-- The peer leaves, and inside `on_close` the application connects again, for another
handler. -/
theorem client_sessions_run :
    ∃ t : WiFiClientRun OneClient,
      run (step clientOfOne true) (fresh {})
          [.connect (some [104]) 80 3, .callbackReturns,
            .outside { connected := true, input := true }, .poll, .outside {},
            .callbackReturns, .connect (some [104]) 80 4, .callbackReturns, .callbackReturns]
          = some t
        ∧ t.log = [.dropped, .connectReturned true, .called .onConnect 4, .appClosed,
            .called .onClose 3, .called .onData 3, .connectReturned true, .called .onConnect 3,
            .appClosed]
        ∧ t.undefined = false
        ∧ ∃ session, WiFiClientSession.after t.log = some session ∧ Linked t session := by
  have hend : (run (restrict flatPoll (step clientOfOne true)) (fresh {})
      [.connect (some [104]) 80 3, .callbackReturns,
        .outside { connected := true, input := true }, .poll, .outside {},
        .callbackReturns, .connect (some [104]) 80 4, .callbackReturns, .callbackReturns]).map log
      = some [.dropped, .connectReturned true, .called .onConnect 4, .appClosed,
          .called .onClose 3, .called .onData 3, .connectReturned true, .called .onConnect 3,
          .appClosed] := rfl
  obtain ⟨t, hflat, hlog⟩ := Option.map_eq_some_iff.mp hend
  have hrun := run_of_restrict hflat
  obtain ⟨hdefined, hsession⟩ := client_sessions clientOfOne true {} _ hrun
  exact ⟨t, hrun, hlog, hdefined, hsession hflat⟩

end WiFiClientRun

end AsyncEventLoop
