import AsyncEventLoop.TcpLineIsolation

/-!
# The TCP server on Linux

`LinuxTcpServer` owns the connections it has accepted, each around a libevent
bufferevent. Closing a connection frees its bufferevent and marks it; the
sweep that ends every callback destroys the marked ones. `close` of the
server destroys them all at once.

`TcpWorld` is the server together with what is in the bufferevents' buffers
and what the application does in the callbacks to come. It is a world for
the line server of `TcpLineServer`: `linuxEnv` answers the calls of its
connections. A connection that has been destroyed answers that it is not
valid; whether one is ever asked is what `TcpSlotOwnership` is about.
-/

namespace AsyncEventLoop

open Runs

/-- `LinuxTcpConnection`. `bev` says that there is a bufferevent; `owner_` is set
as long as the connection is owned. -/
structure LinuxTcpConnection where
  id : Nat
  bev : Bool := true
  removeRequested : Bool := false
  deriving DecidableEq

/-- `LinuxTcpServer`. `handler` says that it listens, and has a handler. -/
structure LinuxTcpServer where
  maxConnections : Nat := 16
  handler : Bool := true
  connections : List LinuxTcpConnection := []

namespace LinuxTcpServer

/-- `close` of the server. -/
def close (s : LinuxTcpServer) : LinuxTcpServer :=
  { s with connections := [], handler := false }

def connectionCount (s : LinuxTcpServer) : Nat := s.connections.countP LinuxTcpConnection.bev

def pushBack (s : LinuxTcpServer) (connection : LinuxTcpConnection) : LinuxTcpServer :=
  { s with connections := s.connections ++ [connection] }

def sweepClosed (s : LinuxTcpServer) : LinuxTcpServer :=
  { s with connections := s.connections.filter fun k => !k.removeRequested }

/-- `valid` of a connection. -/
def isValid (s : LinuxTcpServer) (connection : Nat) : Bool :=
  s.connections.any fun k => k.id = connection && k.bev

/-- `close` of a connection. -/
def closeConnection (s : LinuxTcpServer) (connection : Nat) : LinuxTcpServer :=
  { s with
    connections := s.connections.map fun k =>
      if k.id = connection then { k with bev := false, removeRequested := true } else k }

def owned (s : LinuxTcpServer) : List Nat := s.connections.map LinuxTcpConnection.id

end LinuxTcpServer

/-- What the application may do in a callback. -/
inductive AppAction where
  | close (connection : Nat)
  | serverClose
  | write (connection len : Nat)

/-- `input` and `output` are the bufferevents' buffers. `script` has a list of
actions for each callback to come, as long as it lasts. -/
structure TcpWorld where
  server : LinuxTcpServer := {}
  nextId : Nat := 0
  input : Nat → List UInt8 := fun _ => []
  output : Nat → Nat := fun _ => 0
  script : List (List AppAction) := []

namespace TcpWorld

def act (w : TcpWorld) : AppAction → TcpWorld
  | .close connection => { w with server := w.server.closeConnection connection }
  | .serverClose => { w with server := w.server.close }
  | .write connection len =>
      if w.server.isValid connection then
        { w with output := Function.update w.output connection (w.output connection + len) }
      else w

def callback (w : TcpWorld) : TcpWorld :=
  (w.script.headD []).foldl act { w with script := w.script.tail }

end TcpWorld

/-- The connections of a `LinuxTcpServer`, and an application that follows the
script. -/
def linuxEnv : ConnectionEnv TcpWorld where
  valid c w := (w.server.isValid c, w)
  inputSize c w := (if w.server.isValid c then (w.input c).length else 0, w)
  outputSize c w := (if w.server.isValid c then w.output c else 0, w)
  read c w :=
    if w.server.isValid c then
      ((w.input c).head?, { w with input := Function.update w.input c (w.input c).tail })
    else (none, w)
  close c w := { w with server := w.server.closeConnection c }
  app _ w := w.callback

/-- libevent's callbacks. `opened` says that the bufferevent could be made; `bytes`
have arrived before the callback, and `pending` is what is left to send. -/
inductive TcpEvent where
  | accept (peer : TcpPeerInfo) (opened : Bool) (script : List (List AppAction))
  | readable (connection : Nat) (bytes : List UInt8) (turns : Nat)
      (script : List (List AppAction))
  | writable (connection pending : Nat) (script : List (List AppAction))
  | failed (connection : Nat) (errorCode : Int) (script : List (List AppAction))
  | eof (connection : Nat) (script : List (List AppAction))

/-! ## A line server behind it -/

namespace LineServer

variable {N n : Nat}

/-- A line server that listens. -/
def listening (N n maxConnections : Nat) (options : TcpBackpressureOptions) :
    LineServer TcpWorld N n :=
  .fresh N n options { server := { maxConnections := maxConnections } }

def onServer (s : LineServer TcpWorld N n) (f : LinuxTcpServer → LinuxTcpServer) :
    LineServer TcpWorld N n :=
  { s with world := { s.world with server := f s.world.server } }

def withScript (s : LineServer TcpWorld N n) (script : List (List AppAction)) :
    LineServer TcpWorld N n :=
  { s with world := { s.world with script := script } }

/-- A new connection, with the next id. -/
def push (s : LineServer TcpWorld N n) : LineServer TcpWorld N n :=
  { s with world := { s.world with
      server := s.world.server.pushBack { id := s.world.nextId }
      nextId := s.world.nextId + 1 } }

/-- `accept_callback`. -/
def acceptCallback (s : LineServer TcpWorld N n) (peer : TcpPeerInfo) (opened : Bool) :
    LineServer TcpWorld N n :=
  if !s.world.server.handler then s
  else
    let s := s.onServer .sweepClosed
    if s.world.server.connectionCount ≥ s.world.server.maxConnections then s
    else if !opened then s
    else (s.push.onAccept linuxEnv s.world.nextId peer).onServer .sweepClosed

/-- The bytes arrive. -/
def receive (s : LineServer TcpWorld N n) (connection : Nat) (bytes : List UInt8) :
    LineServer TcpWorld N n :=
  { s with world := { s.world with
      input := Function.update s.world.input connection (s.world.input connection ++ bytes) } }

/-- The output has been sent, except for `pending`. -/
def drain (s : LineServer TcpWorld N n) (connection pending : Nat) : LineServer TcpWorld N n :=
  { s with world := { s.world with
      output := Function.update s.world.output connection pending } }

/-- One callback. libevent makes none for a bufferevent that has been freed. -/
def callbackStep (s : LineServer TcpWorld N n) : TcpEvent → Option (LineServer TcpWorld N n)
  | .accept peer opened script => some ((s.withScript script).acceptCallback peer opened)
  | .readable connection bytes turns script =>
      if s.world.server.isValid connection then
        (((s.withScript script).receive connection bytes).onData linuxEnv connection turns).map
          (onServer · .sweepClosed)
      else none
  | .writable connection pending script =>
      if s.world.server.isValid connection then
        some ((((s.withScript script).drain connection pending).onWriteReady linuxEnv
          connection).onServer .sweepClosed)
      else none
  | .failed connection errorCode script =>
      if s.world.server.isValid connection then
        some ((((s.withScript script).onError linuxEnv connection errorCode).onServer
          (·.closeConnection connection)).onServer .sweepClosed)
      else none
  | .eof connection script =>
      if s.world.server.isValid connection then
        some ((((s.withScript script).onClose linuxEnv connection).onServer
          (·.closeConnection connection)).onServer .sweepClosed)
      else none

/-! ## It is a world for the line server -/

theorem linuxEnv_readLeavesValid : linuxEnv.ReadLeavesValid := by
  intro connection w byte hread
  by_cases hvalid : w.server.isValid connection
  · simp [linuxEnv, hvalid]
  · simp [linuxEnv, hvalid] at hread

/-- `bindsClean` of the line server's event in the callback. -/
def acceptsClean (past : Nat → Past) (s : LineServer TcpWorld N n) : TcpEvent → Bool
  | .accept _ _ _ => s.readerClean s.world.nextId
  | .readable connection _ _ _ => (s.find connection).isSome || (s.readerClean connection
      && LineProtocolReader.endsLine (s.sessionBytes past connection))
  | _ => true

open SessionServer in
theorem run_outside (s : LineServer TcpWorld N n) (past : Nat → Past) (w : TcpWorld) :
    run (restrict bindsClean (SessionServer.step linuxEnv)) ⟨s, past⟩ [.outside w]
      = some ⟨{ s with world := w }, past⟩ :=
  run_cons.mpr ⟨_, restrict_eq_some.mpr ⟨rfl, rfl⟩, rfl⟩

open SessionServer in
/-- An event, between two changes of the world. -/
theorem run_between {s : LineServer TcpWorld N n} {past : Nat → Past}
    {t : SessionServer TcpWorld N n} (w : TcpWorld) (event : LineServerEvent TcpWorld)
    (w' : TcpWorld)
    (hclean : bindsClean (⟨{ s with world := w }, past⟩ : SessionServer TcpWorld N n) event = true)
    (hstep : SessionServer.step linuxEnv ⟨{ s with world := w }, past⟩ event = some t) :
    run (restrict bindsClean (SessionServer.step linuxEnv)) ⟨s, past⟩
      [.outside w, event, .outside w'] = some ⟨{ t.server with world := w' }, t.past⟩ :=
  run_cons.mpr ⟨_, restrict_eq_some.mpr ⟨rfl, rfl⟩,
    run_cons.mpr ⟨t, restrict_eq_some.mpr ⟨hclean, hstep⟩, run_outside t.server t.past w'⟩⟩

open SessionServer in
/-- A callback is a run of the line server in the Linux world; at most the session of a new
connection begins. -/
theorem callbackStep_run {s s' : LineServer TcpWorld N n} {e : TcpEvent} {past : Nat → Past}
    (hclean : s.acceptsClean past e = true) (hstep : s.callbackStep e = some s') :
    ∃ es past', run (restrict bindsClean (SessionServer.step linuxEnv)) ⟨s, past⟩ es
        = some ⟨s', past'⟩ ∧
      (past' = past ∨ past' = Function.update past s.world.nextId (s.allPast s.world.nextId)) := by
  cases e with
  | accept peer opened script =>
      obtain rfl := Option.some.inj hstep
      unfold acceptCallback
      dsimp only
      split
      · exact ⟨_, _, run_outside s past _, .inl rfl⟩
      · split
        · exact ⟨_, _, run_outside s past _, .inl rfl⟩
        · split
          · exact ⟨_, _, run_outside s past _, .inl rfl⟩
          · exact ⟨_, _, run_between ((s.withScript script).onServer .sweepClosed).push.world
              (.onAccept s.world.nextId peer) _ hclean rfl, .inr rfl⟩
  | readable connection bytes turns script =>
      obtain ⟨-, hmap⟩ := Option.ite_none_right_eq_some.mp hstep
      obtain ⟨t, hdata, rfl⟩ := Option.map_eq_some_iff.mp hmap
      exact ⟨_, _, run_between ((s.withScript script).receive connection bytes).world
        (.onData connection turns) _ hclean (Option.map_eq_some_iff.mpr ⟨t, hdata, rfl⟩), .inl rfl⟩
  | writable connection pending script =>
      obtain ⟨-, hsome⟩ := Option.ite_none_right_eq_some.mp hstep
      obtain rfl := Option.some.inj hsome
      exact ⟨_, _, run_between ((s.withScript script).drain connection pending).world
        (.onWriteReady connection) _ rfl rfl, .inl rfl⟩
  | failed connection errorCode script =>
      obtain ⟨-, hsome⟩ := Option.ite_none_right_eq_some.mp hstep
      obtain rfl := Option.some.inj hsome
      exact ⟨_, _, run_between (s.withScript script).world (.onError connection errorCode)
        (((s.withScript script).onError linuxEnv connection errorCode).onServer
          (·.closeConnection connection) |>.onServer .sweepClosed).world rfl rfl, .inl rfl⟩
  | eof connection script =>
      obtain ⟨-, hsome⟩ := Option.ite_none_right_eq_some.mp hstep
      obtain rfl := Option.some.inj hsome
      exact ⟨_, _, run_between (s.withScript script).world (.onClose connection)
        (((s.withScript script).onClose linuxEnv connection).onServer
          (·.closeConnection connection) |>.onServer .sweepClosed).world rfl rfl, .inl rfl⟩

/-! ## The reader's loop ends -/

theorem callback_input (w : TcpWorld) : w.callback.input = w.input := by
  have hact : ∀ (actions : List AppAction) (v : TcpWorld),
      (actions.foldl TcpWorld.act v).input = v.input := by
    intro actions
    induction actions with
    | nil => exact fun _ => rfl
    | cons a rest ih =>
        intro v
        rw [List.foldl_cons, ih]
        cases a with
        | close connection => rfl
        | serverClose => rfl
        | write connection len =>
            simp only [TcpWorld.act]
            split <;> rfl
  exact hact _ _

theorem handleLine_input (s : LineServer TcpWorld N n) (i : Nat) (line : List UInt8) :
    (s.handleLine linuxEnv i line).world.input = s.world.input
      ∧ (s.handleLine linuxEnv i line).slots = s.slots := by
  unfold handleLine
  split
  · exact ⟨rfl, rfl⟩
  · dsimp only
    split
    · exact ⟨callback_input _, rfl⟩
    · exact ⟨rfl, rfl⟩

theorem consume_input (s : LineServer TcpWorld N n) (i : Nat) (byte : UInt8) :
    (s.consume linuxEnv i byte).world.input = s.world.input
      ∧ ((s.consume linuxEnv i byte).slots i).connection = (s.slots i).connection := by
  unfold consume
  dsimp only
  split
  · obtain ⟨hinput, hslots⟩ := handleLine_input (s.putSlot i { s.slots i with
      reader := ((s.slots i).reader.readByte byte).1 }) i ‹_›
    rw [hslots, putSlot_self]
    exact ⟨hinput, rfl⟩
  · rw [putSlot_self]
    exact ⟨rfl, rfl⟩

/-- Every turn takes a byte, and no callback puts one in. -/
theorem poll_isSome {i connection turns : Nat} {s : LineServer TcpWorld N n}
    (hconnection : (s.slots i).connection = some connection)
    (hturns : (s.world.input connection).length < turns) : (s.poll linuxEnv i turns).isSome := by
  induction turns generalizing s with
  | zero => omega
  | succ turns ih =>
      simp only [poll]
      have hready : (s.readable linuxEnv i).2.slots = s.slots
          ∧ (s.readable linuxEnv i).2.world = s.world := by
        unfold readable
        rw [hconnection]
        dsimp only
        split <;> exact ⟨rfl, rfl⟩
      generalize s.readable linuxEnv i = ready at hready ⊢
      obtain ⟨flag, t⟩ := ready
      obtain ⟨hslots, hworld⟩ := hready
      dsimp only at hslots hworld ⊢
      rw [← hslots] at hconnection
      rw [← hworld] at hturns
      split
      · rfl
      · unfold read
        rw [hconnection]
        dsimp only
        split
        · rfl
        · rename_i byte hread
          rw [hread]
          dsimp only
          obtain ⟨hinput, hkept⟩ := consume_input
            ((t.ask (linuxEnv.read connection)).2.note (.read connection byte)) i byte
          refine ih (hkept.trans hconnection) ?_
          rw [hinput]
          by_cases hvalid : t.world.server.isValid connection
          · cases hbytes : t.world.input connection with
            | nil => simp [ask, consult, note, linuxEnv, hvalid, hbytes] at hread
            | cons b rest =>
                have hshort : rest.length < turns := by simpa [hbytes] using hturns
                simpa [ask, consult, note, linuxEnv, hvalid, hbytes] using hshort
          · simp [ask, consult, note, linuxEnv, hvalid] at hread

theorem onData_isSome {connection turns : Nat} {s : LineServer TcpWorld N n}
    (hturns : (s.world.input connection).length < turns) :
    (s.onData linuxEnv connection turns).isSome := by
  have hspec := acquire_spec s connection
  unfold onData
  dsimp only
  generalize s.acquire connection = r at hspec ⊢
  obtain ⟨slot, t⟩ := r
  cases hspec with
  | found i hfind =>
      rw [Option.isSome_map]
      exact poll_isSome (find_some (s := s) hfind) hturns
  | bound i hfind hfree =>
      rw [Option.isSome_map]
      have hbound := congrArg LineSlot.connection (bind_self s.consult i connection)
      exact poll_isSome hbound hturns
  | full hfind hfree => rfl

/-- With a turn for each byte and one more, every read callback returns. -/
theorem readable_isSome {s : LineServer TcpWorld N n} {connection turns : Nat}
    {bytes : List UInt8} (script : List (List AppAction))
    (hvalid : s.world.server.isValid connection = true)
    (hturns : (s.world.input connection).length + bytes.length < turns) :
    (s.callbackStep (.readable connection bytes turns script)).isSome := by
  simp only [callbackStep, hvalid, if_true, Option.isSome_map]
  refine onData_isSome ?_
  simpa [receive, withScript] using hturns

end LineServer

end AsyncEventLoop
