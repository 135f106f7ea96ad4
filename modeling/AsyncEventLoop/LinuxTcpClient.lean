import AsyncEventLoop.Runs
import AsyncEventLoop.TcpLineServer

/-!
# The Linux TCP client

`LinuxTcpClient` over the results of its system calls: what `socket`,
`connect`, `getsockopt` and `recv` return, and whether the event loop takes a
file descriptor, is given with each call of `connect` and `poll`.

A call into the client runs up to the callback it makes of the handler, and the
rest of it runs when the callback returns. Meanwhile the handler may call the
client again, so the calls under way form a stack. The log has the callbacks,
the answers of `connect`, and every attempt or connection that a `close()` took
from the client, with whose `close()` it was.

`poll` reports a lost connection, or a connection attempt that failed, and closes
the client after that, whatever the handler did in the callback. The outcome of
every attempt is delivered in the runs in which those callbacks never return with
another attempt in the client's hands.
-/

namespace AsyncEventLoop

open Runs

/-! ## The client -/

def EINTR : Int := 4
def EAGAIN : Int := 11
def EWOULDBLOCK : Int := 11
def EINVAL : Int := 22
def EALREADY : Int := 114
def EINPROGRESS : Int := 115

/-- `errno ? errno : EINVAL`. -/
def errnoOr (errno : Int) : Int :=
  if errno ≠ 0 then errno else EINVAL

structure TcpConnectOptions where
  host : Option String := some "127.0.0.1"
  port : UInt16 := 0

/-- A call of `connect`: its number, and the handler it was given. -/
structure Attempt where
  number : Nat
  handler : Nat
  deriving DecidableEq

/-- The state of `LinuxTcpClient`. -/
inductive ClientState where
  | idle
  | connecting
  | connected
  deriving DecidableEq

/-- `LinuxTcpClient`, with none for a file descriptor of -1. `attempt` is the call
that set the handler last; it is kept for the log only. -/
structure LinuxTcpClient where
  handler : Option Nat := none
  connectionFd : Option Nat := none
  connectionPeer : TcpPeerInfo := {}
  pendingPeer : TcpPeerInfo := {}
  pendingFd : Option Nat := none
  registeredFd : Option Nat := none
  state : ClientState := .idle
  attempt : Attempt := ⟨0, 0⟩

/-- The callbacks of `ITcpClientHandler` that the client makes. -/
inductive ClientCallback where
  | onConnect (peer : TcpPeerInfo)
  | onData
  | onClose
  | onError (errorCode : Int)
  deriving DecidableEq

/-- What is left of a call once its callback returns: `connect` returns an answer,
or `poll` does nothing more, or it closes the client after a callback about an
attempt. -/
inductive ClientFrame where
  | returns (a : Attempt) (ok : Bool)
  | done
  | closes (a : Attempt)

/-- A call of the client up to its callback. -/
structure ClientTurn where
  client : LinuxTcpClient
  callback : Option (Attempt × ClientCallback)
  rest : ClientFrame

/-- One result of `getaddrinfo`, and what the calls made with it return; the errors
are the `errno` of a call that fails. `sin` is the address if it is one of
`AF_INET`. -/
structure AddressTurn where
  sin : Option TcpPeerInfo := none
  socket : Except Int Nat
  nonblockingError : Option Int := none
  connectError : Option Int := none
  registerError : Option Int := none

/-- The arguments of `connect`; `addresses` is none where `getaddrinfo` fails or has
no result. -/
structure ConnectCall where
  options : TcpConnectOptions
  handler : Nat
  addresses : Option (List AddressTurn)

/-- What `recv` returns. -/
inductive RecvResult where
  | data
  | eof
  | failed (errno : Int)

/-- The system calls of one `poll`. `soError` is the error `getsockopt` reads, or the
`errno` of a `getsockopt` that fails. -/
structure PollEnv where
  soError : Except Int Int := .ok 0
  registerError : Option Int := none
  recv : RecvResult := .failed EAGAIN

/-- The error `complete_connect` finds, 0 for none. -/
def PollEnv.err (env : PollEnv) : Int :=
  match env.soError with
  | .ok err => err
  | .error errno => errnoOr errno

/-- `fill_peer`. -/
def fillPeer (sin : Option TcpPeerInfo) (fallbackHost : String) (fallbackPort : UInt16) :
    TcpPeerInfo :=
  match sin with
  | some peer => peer
  | none => { host := String.ofList (fallbackHost.toList.take 63), port := fallbackPort }

namespace LinuxTcpClient

def unregisterFd (c : LinuxTcpClient) : LinuxTcpClient :=
  { c with registeredFd := none }

def close (c : LinuxTcpClient) : LinuxTcpClient :=
  { c.unregisterFd with pendingFd := none, connectionFd := none, handler := none, state := .idle }

/-- `connection().close()`. -/
def closeConnection (c : LinuxTcpClient) : LinuxTcpClient :=
  { c with connectionFd := none }

/-- The attempt or connection the client holds. -/
def held (c : LinuxTcpClient) : Option Attempt :=
  if c.state = .idle then none else some c.attempt

/-- The attempt as the handler `h` knows it. -/
def told (c : LinuxTcpClient) (h : Nat) : Attempt :=
  { c.attempt with handler := h }

def refuse (c : LinuxTcpClient) (a : Attempt) (errorCode : Int) : ClientTurn where
  client := c
  callback := some (a, .onError errorCode)
  rest := .returns a false

/-- `activate_connected_fd`; `rest` is what its caller does with the answer. -/
def activateConnectedFd (c : LinuxTcpClient) (fd : Nat) (peer : TcpPeerInfo)
    (registerError : Option Int) (rest : Bool → ClientFrame) : ClientTurn :=
  let c := { c with connectionFd := some fd, connectionPeer := peer, state := .connected }
  match registerError with
  | some errno =>
      { client := { c with connectionFd := none, state := .idle, handler := none }
        callback := c.handler.map fun h => (c.told h, .onError (errnoOr errno))
        rest := rest false }
  | none =>
      { client := { c with registeredFd := c.connectionFd }
        callback := c.handler.map fun h => (c.told h, .onConnect c.connectionPeer)
        rest := rest true }

/-- The loop of `connect` over the results of `getaddrinfo`. -/
def tryAddresses (c : LinuxTcpClient) (a : Attempt) (host : String) (port : UInt16) :
    (lastError : Int) → List AddressTurn → ClientTurn
  | lastError, [] => c.refuse a lastError
  | _, ai :: rest =>
      match ai.socket with
      | .error errno => c.tryAddresses a host port errno rest
      | .ok fd =>
          match ai.nonblockingError with
          | some errno => c.tryAddresses a host port (errnoOr errno) rest
          | none =>
              let peer := fillPeer ai.sin host port
              match ai.connectError with
              | none =>
                  { c with handler := some a.handler, attempt := a }.activateConnectedFd
                    fd peer ai.registerError (.returns a)
              | some errno =>
                  if errno = EINPROGRESS ∨ errno = EALREADY ∨ errno = EWOULDBLOCK then
                    let c := { c with
                      handler := some a.handler
                      attempt := a
                      pendingFd := some fd
                      pendingPeer := peer
                      state := .connecting }
                    match ai.registerError with
                    | some errno => c.close.refuse a (errnoOr errno)
                    | none =>
                        { client := { c with registeredFd := c.pendingFd }
                          callback := none
                          rest := .returns a true }
                  else c.tryAddresses a host port errno rest

def connect (c : LinuxTcpClient) (number : Nat) (call : ConnectCall) : ClientTurn :=
  let c := c.close
  let a := { number := number, handler := call.handler }
  match call.options.host with
  | none => c.refuse a EINVAL
  | some host =>
      if call.options.port = 0 then c.refuse a EINVAL
      else
        match call.addresses with
        | none => c.refuse a EINVAL
        | some addresses => c.tryAddresses a host call.options.port EINVAL addresses

/-- A `poll` that returns without a callback. -/
def ignore (c : LinuxTcpClient) : ClientTurn where
  client := c
  callback := none
  rest := .done

def completeConnect (c : LinuxTcpClient) (env : PollEnv) : ClientTurn :=
  match c.handler, c.pendingFd with
  | some h, some fd =>
      if env.err ≠ 0 then
        { client := c
          callback := some (c.told h, .onError env.err)
          rest := .closes c.attempt }
      else
        { c.unregisterFd with pendingFd := none }.activateConnectedFd fd c.pendingPeer
          env.registerError fun _ => .done
  | _, _ =>
      { client := c
        callback := none
        rest := .closes c.attempt }

def poll (c : LinuxTcpClient) (env : PollEnv) : ClientTurn :=
  match c.state with
  | .connecting => c.completeConnect env
  | .idle => c.ignore
  | .connected =>
      match c.handler, c.connectionFd with
      | some h, some _ =>
          match env.recv with
          | .data =>
              { client := c
                callback := some (c.told h, .onData)
                rest := .done }
          | .eof =>
              { client := c
                callback := some (c.told h, .onClose)
                rest := .closes c.attempt }
          | .failed errno =>
              if errno = EAGAIN ∨ errno = EWOULDBLOCK ∨ errno = EINTR then c.ignore
              else
                { client := c
                  callback := some (c.told h, .onError errno)
                  rest := .closes c.attempt }
      | _, _ => c.ignore

end LinuxTcpClient

/-! ## The runs -/

/-- The log of a run: callbacks, answers of `connect`, and what a `close()` took from
the client: one of the application, on its own or at the start of `connect`, or one
of the client itself. -/
inductive ClientNote where
  | called (a : Attempt) (callback : ClientCallback)
  | returned (a : Attempt) (ok : Bool)
  | dropped (a : Attempt)
  | closed (a : Attempt)
  deriving DecidableEq

/-- What happens to a client: the application calls it, in a callback or not, a file
descriptor is ready, or the callback made last returns. -/
inductive ClientEvent where
  | connect (call : ConnectCall)
  | close
  | closeConnection
  | poll (env : PollEnv)
  | callbackReturns

/-- A client in use. `frames` are the callbacks under way, the last first, and
`attempts` counts the calls of `connect`. -/
structure ClientRun where
  client : LinuxTcpClient := {}
  frames : List ClientFrame := []
  attempts : Nat := 0
  log : List ClientNote := []

namespace ClientRun

/-- The application takes from the client what it holds. -/
def drop (s : ClientRun) : ClientRun :=
  { s with
    client := s.client.close
    log := s.log ++ s.client.held.toList.map .dropped }

/-- The rest of a call. -/
def finish (s : ClientRun) : ClientFrame → ClientRun
  | .returns a ok => { s with log := s.log ++ [.returned a ok] }
  | .done => s
  | .closes _ =>
      { s with
        client := s.client.close
        log := s.log ++ s.client.held.toList.map .closed }

def perform (s : ClientRun) (turn : ClientTurn) : ClientRun :=
  match turn.callback with
  | some (a, callback) =>
      { s with
        client := turn.client
        frames := turn.rest :: s.frames
        log := s.log ++ [.called a callback] }
  | none => { s with client := turn.client }.finish turn.rest

def step (s : ClientRun) : ClientEvent → Option ClientRun
  | .connect call =>
      some ({ s.drop with attempts := s.attempts + 1 }.perform (s.client.connect s.attempts call))
  | .close => some s.drop
  | .closeConnection => some { s with client := s.client.closeConnection }
  | .poll env => some (s.perform (s.client.poll env))
  | .callbackReturns =>
      match s.frames with
      | [] => none
      | frame :: frames => some ({ s with frames := frames }.finish frame)

/-! ## Outcomes -/

/-- The log has an `on_connect` for the attempt. -/
def Connects (log : List ClientNote) (a : Attempt) : Prop :=
  ∃ peer, .called a (.onConnect peer) ∈ log

/-- The log has an `on_error` for the attempt. -/
def Errors (log : List ClientNote) (a : Attempt) : Prop :=
  ∃ errorCode, .called a (.onError errorCode) ∈ log

/-- The handler was told that the connection is lost. -/
def ToldLost (log : List ClientNote) (a : Attempt) : Prop :=
  .called a .onClose ∈ log ∨ Errors log a

def isErrorOf (a : Attempt) : ClientNote → Bool
  | .called b (.onError _) => decide (b = a)
  | _ => false

/-- How many `on_error` the log has for the attempt. -/
def errorCount (log : List ClientNote) (a : Attempt) : Nat :=
  log.countP (isErrorOf a)

/-- Every attempt came to its outcome, or is still in the client's hands: an attempt
refused has one `on_error` and no `on_connect`; one accepted has one of the two
unless the application took it back; and a connection that `on_connect`
announced was not closed by the client untold. -/
structure Outcomes (s : ClientRun) : Prop where
  refused : ∀ a, .returned a false ∈ s.log → errorCount s.log a = 1 ∧ ¬ Connects s.log a
  accepted : ∀ a, .returned a true ∈ s.log →
    Connects s.log a ∨ Errors s.log a ∨ .dropped a ∈ s.log ∨ s.client.held = some a
  connection : ∀ a, Connects s.log a → .closed a ∈ s.log → ToldLost s.log a

/-- A callback after which the client closes returns while the client holds nothing,
or what the callback was about. -/
def closesOwn (s : ClientRun) : ClientEvent → Bool
  | .callbackReturns =>
      match s.frames with
      | .closes a :: _ => decide (s.client.held = none ∨ s.client.held = some a)
      | _ => true
  | _ => true

/-! ## One call -/

end ClientRun

namespace LinuxTcpClient

/-- What the client holds has its handler, and a file descriptor while it is being
connected. -/
structure Sound (c : LinuxTcpClient) : Prop where
  handler : c.state ≠ .idle → c.handler = some c.attempt.handler
  pending : c.state = .connecting → c.pendingFd.isSome

theorem Sound.of_idle {c : LinuxTcpClient} (h : c.state = .idle) : c.Sound where
  handler := absurd h
  pending := by simp [h]

theorem Sound.told {c : LinuxTcpClient} (h : c.Sound) (hstate : c.state ≠ .idle) {n : Nat}
    (hn : c.handler = some n) : c.told n = c.attempt := by
  obtain rfl : n = c.attempt.handler := Option.some.inj (hn.symm.trans (h.handler hstate))
  rfl

theorem held_of_idle {c : LinuxTcpClient} (h : c.state = .idle) : c.held = none := by
  simp [held, h]

theorem held_of_busy {c : LinuxTcpClient} (h : c.state ≠ .idle) : c.held = some c.attempt := by
  simp [held, h]

theorem held_eq_some {c : LinuxTcpClient} {a : Attempt} :
    c.held = some a ↔ c.state ≠ .idle ∧ c.attempt = a := by
  simp [held]

/-- A call of `connect` as the attempt `a`. -/
inductive ConnectTurn (a : Attempt) : ClientTurn → Prop where
  | refused (c : LinuxTcpClient) (errorCode : Int) : c.state = .idle →
      ConnectTurn a ⟨c, some (a, .onError errorCode), .returns a false⟩
  | connected (c : LinuxTcpClient) (peer : TcpPeerInfo) : c.Sound → c.state = .connected →
      c.attempt = a → ConnectTurn a ⟨c, some (a, .onConnect peer), .returns a true⟩
  | pending (c : LinuxTcpClient) : c.Sound → c.state = .connecting → c.attempt = a →
      ConnectTurn a ⟨c, none, .returns a true⟩

theorem tryAddresses_turn {c : LinuxTcpClient} (hidle : c.state = .idle) (a : Attempt)
    (host : String) (port : UInt16) (lastError : Int) (addresses : List AddressTurn) :
    ConnectTurn a (c.tryAddresses a host port lastError addresses) := by
  induction addresses generalizing lastError with
  | nil => exact .refused c lastError hidle
  | cons ai rest ih =>
      unfold tryAddresses
      split
      · exact ih _
      · split
        · exact ih _
        · dsimp only
          split
          · -- connected at once
            unfold activateConnectedFd
            cases ai.registerError with
            | some errno => exact .refused _ _ rfl
            | none => exact .connected _ _ ⟨fun _ => rfl, nofun⟩ rfl rfl
          · split
            · -- in progress
              cases ai.registerError with
              | some errno => exact .refused _ _ rfl
              | none => exact .pending _ ⟨fun _ => rfl, fun _ => rfl⟩ rfl rfl
            · exact ih _

theorem connect_turn (c : LinuxTcpClient) (number : Nat) (call : ConnectCall) :
    ConnectTurn ⟨number, call.handler⟩ (c.connect number call) := by
  unfold connect
  dsimp only
  split
  · exact .refused _ _ rfl
  · split
    · exact .refused _ _ rfl
    · split
      · exact .refused _ _ rfl
      · exact tryAddresses_turn rfl ..

/-- A call of `poll` by a client in state `c`. -/
inductive PollTurn (c : LinuxTcpClient) : ClientTurn → Prop where
  | ignored : PollTurn c ⟨c, none, .done⟩
  | data : c.state = .connected → PollTurn c ⟨c, some (c.attempt, .onData), .done⟩
  | lost : c.state = .connected → PollTurn c ⟨c, some (c.attempt, .onClose), .closes c.attempt⟩
  | failed (errorCode : Int) : c.state ≠ .idle →
      PollTurn c ⟨c, some (c.attempt, .onError errorCode), .closes c.attempt⟩
  | connected (c' : LinuxTcpClient) (peer : TcpPeerInfo) : c.state = .connecting → c'.Sound →
      c'.state = .connected → c'.attempt = c.attempt →
      PollTurn c ⟨c', some (c.attempt, .onConnect peer), .done⟩
  | refused (c' : LinuxTcpClient) (errorCode : Int) : c.state = .connecting → c'.state = .idle →
      c'.attempt = c.attempt → PollTurn c ⟨c', some (c.attempt, .onError errorCode), .done⟩

theorem completeConnect_turn {c : LinuxTcpClient} (h : c.Sound) (hstate : c.state = .connecting)
    (env : PollEnv) : PollTurn c (c.completeConnect env) := by
  have hbusy : c.state ≠ .idle := by simp [hstate]
  obtain ⟨fd, hfd⟩ := Option.isSome_iff_exists.mp (h.pending hstate)
  have hhandler := h.handler hbusy
  unfold completeConnect
  rw [hhandler, hfd]
  dsimp only
  split
  · exact .failed env.err hbusy
  · unfold activateConnectedFd
    cases env.registerError with
    | some errno =>
        simp only [unregisterFd, hhandler]
        exact .refused _ _ hstate rfl rfl
    | none =>
        simp only [unregisterFd, hhandler]
        exact .connected _ _ hstate ⟨fun _ => rfl, nofun⟩ rfl rfl

theorem poll_turn {c : LinuxTcpClient} (h : c.Sound) (env : PollEnv) :
    PollTurn c (c.poll env) := by
  unfold poll
  split
  · exact completeConnect_turn h ‹_› env
  · exact .ignored
  · have hstate : c.state = .connected := ‹_›
    have hbusy : c.state ≠ .idle := by simp [hstate]
    split
    · rw [h.told hbusy ‹_›]
      split
      · exact .data hstate
      · exact .lost hstate
      · split
        · exact .ignored
        · exact .failed _ hbusy
    · exact .ignored

end LinuxTcpClient

/-! ## The invariant -/

def ClientNote.attempt : ClientNote → Attempt
  | .called a _ | .returned a _ | .dropped a | .closed a => a

namespace ClientRun

/-- What an answer of `connect` says of its attempt. -/
def Answered (s : ClientRun) (a : Attempt) : Bool → Prop
  | false => errorCount s.log a = 1 ∧ ¬ Connects s.log a ∧ s.client.held ≠ some a
  | true => Connects s.log a ∨ Errors s.log a ∨ .dropped a ∈ s.log ∨ s.client.held = some a

/-- The rest of a call may run. -/
def Justified (s : ClientRun) : ClientFrame → Prop
  | .returns a ok => s.Answered a ok
  | .done => True
  | .closes a => ToldLost s.log a ∧ (Connects s.log a ∨ Errors s.log a)

structure Kept (s : ClientRun) : Prop where
  sound : s.client.Sound
  held : ∀ a, s.client.held = some a → a.number < s.attempts
  notes : ∀ note ∈ s.log, note.attempt.number < s.attempts
  connected : s.client.state = .connected → Connects s.log s.client.attempt
  frames : ∀ frame ∈ s.frames, s.Justified frame
  answered : ∀ a ok, .returned a ok ∈ s.log → s.Answered a ok
  closed : ∀ a, .closed a ∈ s.log → ToldLost s.log a

/-- What a part of a call does to the log: callbacks are about the attempt the
client holds or a new one, and no attempt is lost without its outcome. -/
structure Grows (s s' : ClientRun) (notes : List ClientNote) : Prop where
  log : s'.log = s.log ++ notes
  attempts : s.attempts ≤ s'.attempts
  held : ∀ a, s'.client.held = some a →
    s.client.held = some a ∨ s.attempts ≤ a.number ∧ a.number < s'.attempts
  calls : ∀ a callback, .called a callback ∈ notes →
    s.client.held = some a ∨ s.attempts ≤ a.number
  lost : ∀ a, s.client.held = some a → s'.Answered a true

theorem Connects.append {log : List ClientNote} {a : Attempt} (h : Connects log a)
    (notes : List ClientNote) : Connects (log ++ notes) a :=
  h.imp fun _ hmem => List.mem_append_left _ hmem

theorem Errors.append {log : List ClientNote} {a : Attempt} (h : Errors log a)
    (notes : List ClientNote) : Errors (log ++ notes) a :=
  h.imp fun _ hmem => List.mem_append_left _ hmem

theorem ToldLost.append {log : List ClientNote} {a : Attempt} (h : ToldLost log a)
    (notes : List ClientNote) : ToldLost (log ++ notes) a :=
  h.imp (List.mem_append_left _) (Errors.append · _)

theorem isErrorOf_eq_true {a : Attempt} {note : ClientNote} :
    isErrorOf a note = true ↔ ∃ errorCode, note = .called a (.onError errorCode) := by
  unfold isErrorOf
  split <;> simp_all

theorem errors_of_count {log : List ClientNote} {a : Attempt} (h : errorCount log a = 1) :
    Errors log a := by
  have hpos : 0 < log.countP (isErrorOf a) := by
    unfold errorCount at h
    omega
  obtain ⟨note, hmem, hnote⟩ := List.countP_pos_iff.mp hpos
  obtain ⟨errorCode, rfl⟩ := isErrorOf_eq_true.mp hnote
  exact ⟨errorCode, hmem⟩

theorem errorCount_eq_zero {log : List ClientNote} {a : Attempt} (h : ¬ Errors log a) :
    errorCount log a = 0 :=
  List.countP_eq_zero.mpr fun note hmem hnote => by
    obtain ⟨errorCode, rfl⟩ := isErrorOf_eq_true.mp hnote
    exact h ⟨errorCode, hmem⟩

/-- An answer is about an attempt already made. -/
theorem Kept.answered_lt {s : ClientRun} (h : Kept s) {a : Attempt} {ok : Bool}
    (hanswered : s.Answered a ok) : a.number < s.attempts := by
  cases ok with
  | false =>
      obtain ⟨errorCode, hmem⟩ := errors_of_count hanswered.1
      exact h.notes _ hmem
  | true =>
      rcases hanswered with ⟨peer, hmem⟩ | ⟨errorCode, hmem⟩ | hmem | hheld
      · exact h.notes _ hmem
      · exact h.notes _ hmem
      · exact h.notes _ hmem
      · exact h.held a hheld

theorem Answered.grows {s s' : ClientRun} {notes : List ClientNote} (h : Kept s)
    (hgrows : Grows s s' notes) {a : Attempt} {ok : Bool} (hanswered : s.Answered a ok) :
    s'.Answered a ok := by
  cases ok with
  | false =>
      have hlt := h.answered_lt hanswered
      obtain ⟨hcount, hconnects, hheld⟩ := hanswered
      -- the attempt is neither held nor new, so that no callback is about it
      have hcalls : ∀ callback, .called a callback ∉ notes := fun callback hmem =>
        (hgrows.calls a callback hmem).elim hheld fun hle => absurd hlt (Nat.not_lt.mpr hle)
      have hnone : errorCount notes a = 0 :=
        errorCount_eq_zero fun ⟨errorCode, hmem⟩ => hcalls _ hmem
      refine ⟨?_, ?_, ?_⟩
      · rw [hgrows.log]
        simp only [errorCount, List.countP_append] at hcount hnone ⊢
        omega
      · rintro ⟨peer, hmem⟩
        rcases List.mem_append.mp (hgrows.log ▸ hmem) with hold | hnew
        · exact hconnects ⟨peer, hold⟩
        · exact hcalls _ hnew
      · intro hheld'
        rcases hgrows.held a hheld' with hold | ⟨hle, -⟩
        · exact hheld hold
        · omega
  | true =>
      rcases hanswered with hconnects | herrors | hdropped | hheld
      · exact Or.inl (hgrows.log ▸ hconnects.append notes)
      · exact Or.inr (Or.inl (hgrows.log ▸ herrors.append notes))
      · exact Or.inr (Or.inr (Or.inl (hgrows.log ▸ List.mem_append_left _ hdropped)))
      · exact hgrows.lost a hheld

theorem Justified.grows {s s' : ClientRun} {notes : List ClientNote} (h : Kept s)
    (hgrows : Grows s s' notes) {frame : ClientFrame} (hframe : s.Justified frame) :
    s'.Justified frame := by
  cases frame with
  | returns a ok => exact Answered.grows h hgrows hframe
  | done => trivial
  | closes a =>
      unfold Justified at hframe ⊢
      rw [hgrows.log]
      exact ⟨hframe.1.append notes, hframe.2.imp (·.append notes) (·.append notes)⟩

theorem Kept.grows {s s' : ClientRun} {notes : List ClientNote} (h : Kept s)
    (hgrows : Grows s s' notes) (hsound : s'.client.Sound) (hframes : s'.frames = s.frames)
    (hnotes : ∀ note ∈ notes, note.attempt.number < s'.attempts)
    (hconnected : s'.client.state = .connected → Connects s'.log s'.client.attempt)
    (hanswered : ∀ a ok, .returned a ok ∈ notes → s'.Answered a ok)
    (hclosed : ∀ a, .closed a ∈ notes → ToldLost s'.log a) : Kept s' where
  sound := hsound
  held a ha := by
    rcases hgrows.held a ha with hold | ⟨-, hlt⟩
    · exact Nat.lt_of_lt_of_le (h.held a hold) hgrows.attempts
    · exact hlt
  notes note hmem := by
    rcases List.mem_append.mp (hgrows.log ▸ hmem) with hold | hnew
    · exact Nat.lt_of_lt_of_le (h.notes note hold) hgrows.attempts
    · exact hnotes note hnew
  connected := hconnected
  frames frame hmem := Justified.grows h hgrows (h.frames frame (hframes ▸ hmem))
  answered a ok hmem := by
    rcases List.mem_append.mp (hgrows.log ▸ hmem) with hold | hnew
    · exact Answered.grows h hgrows (h.answered a ok hold)
    · exact hanswered a ok hnew
  closed a hmem := by
    rcases List.mem_append.mp (hgrows.log ▸ hmem) with hold | hnew
    · exact hgrows.log ▸ (h.closed a hold).append notes
    · exact hclosed a hnew

theorem mem_held_map {c : LinuxTcpClient} {note : ClientNote} {f : Attempt → ClientNote} :
    note ∈ c.held.toList.map f ↔ ∃ a, c.held = some a ∧ note = f a := by
  simp [eq_comm]

/-- A `close()` of the application, or one of the client for which there are
grounds. -/
theorem Kept.release {s : ClientRun} (h : Kept s) {note : Attempt → ClientNote}
    (hnote : note = .dropped ∨ note = .closed ∧ ∀ a, s.client.held = some a →
      ToldLost s.log a ∧ (Connects s.log a ∨ Errors s.log a)) :
    Kept { s with client := s.client.close, log := s.log ++ s.client.held.toList.map note } := by
  have hidle : s.client.close.held = none := LinuxTcpClient.held_of_idle rfl
  have hgrows : Grows s
      { s with client := s.client.close, log := s.log ++ s.client.held.toList.map note }
      (s.client.held.toList.map note) :=
    { log := rfl
      attempts := Nat.le_refl _
      held := fun a ha => by simp [hidle] at ha
      calls := fun a callback hmem => by
        obtain ⟨b, -, hb⟩ := mem_held_map.mp hmem
        rcases hnote with rfl | ⟨rfl, -⟩ <;> cases hb
      lost := fun a ha => by
        rcases hnote with rfl | ⟨rfl, hgrounds⟩
        · have hdropped : ClientNote.dropped a ∈ s.client.held.toList.map ClientNote.dropped :=
            mem_held_map.mpr ⟨a, ha, rfl⟩
          exact Or.inr (Or.inr (Or.inl (List.mem_append_right _ hdropped)))
        · exact (hgrounds a ha).2.elim (fun hc => Or.inl (hc.append _))
            fun he => Or.inr (Or.inl (he.append _)) }
  refine h.grows hgrows (.of_idle rfl) rfl ?_ (fun hstate => by cases hstate) ?_ ?_
  · intro n hmem
    obtain ⟨a, ha, rfl⟩ := mem_held_map.mp hmem
    rcases hnote with rfl | ⟨rfl, -⟩ <;> exact h.held a ha
  · intro a ok hmem
    obtain ⟨b, -, hb⟩ := mem_held_map.mp hmem
    rcases hnote with rfl | ⟨rfl, -⟩ <;> cases hb
  · intro a hmem
    obtain ⟨b, hb, heq⟩ := mem_held_map.mp hmem
    rcases hnote with rfl | ⟨rfl, hgrounds⟩
    · cases heq
    · cases heq
      exact (hgrounds a hb).1.append _

theorem Kept.closeConnection {s : ClientRun} (h : Kept s) :
    Kept { s with client := s.client.closeConnection } := by
  have hgrows : Grows s { s with client := s.client.closeConnection } [] :=
    { log := (List.append_nil _).symm
      attempts := Nat.le_refl _
      held := fun a ha => Or.inl ha
      calls := by simp
      lost := fun a ha => Or.inr (Or.inr (Or.inr ha)) }
  exact h.grows hgrows ⟨h.sound.handler, h.sound.pending⟩ rfl (by simp) h.connected (by simp)
    (by simp)

/-- The rest of a call. -/
theorem Kept.finish {s : ClientRun} (h : Kept s) {frame : ClientFrame}
    (hframe : s.Justified frame)
    (hown : ∀ a, frame = .closes a → s.client.held = none ∨ s.client.held = some a) :
    Kept (s.finish frame) := by
  cases frame with
  | done => exact h
  | returns a ok =>
      have hgrows : Grows s (s.finish (.returns a ok)) [.returned a ok] :=
        { log := rfl
          attempts := Nat.le_refl _
          held := fun a ha => Or.inl ha
          calls := by simp
          lost := fun a ha => Or.inr (Or.inr (Or.inr ha)) }
      refine h.grows hgrows h.sound rfl ?_ ?_ ?_ (by simp)
      · intro note hmem
        obtain rfl := List.mem_singleton.mp hmem
        exact h.answered_lt hframe
      · intro hstate
        exact (h.connected hstate).append _
      · intro b ok' hmem
        cases List.mem_singleton.mp hmem
        exact Answered.grows h hgrows hframe
  | closes a =>
      refine h.release (Or.inr ⟨rfl, ?_⟩)
      intro b hb
      rcases hown a rfl with hnone | hsome
      · rw [hnone] at hb
        cases hb
      · obtain rfl := Option.some.inj (hsome.symm.trans hb)
        exact hframe

theorem Kept.setFrames {s : ClientRun} (h : Kept s) {frames : List ClientFrame}
    (hframes : ∀ frame ∈ frames, s.Justified frame) : Kept { s with frames := frames } where
  sound := h.sound
  held := h.held
  notes := h.notes
  connected := h.connected
  frames frame hmem := by
    have hframe := hframes frame hmem
    cases frame <;> exact hframe
  answered a ok hmem := by
    have hanswered := h.answered a ok hmem
    cases ok <;> exact hanswered
  closed := h.closed

/-- A callback is made, and the rest of the call waits for it. -/
theorem Kept.push {s : ClientRun} (h : Kept s) {frame : ClientFrame}
    (hframe : s.Justified frame) : Kept { s with frames := frame :: s.frames } :=
  h.setFrames (List.forall_mem_cons.mpr ⟨hframe, h.frames⟩)

/-- The client calls back about the attempt it holds, or takes up a new one. -/
theorem Kept.calls {s : ClientRun} (h : Kept s) {c : LinuxTcpClient} {n : Nat} {a : Attempt}
    (callbacks : List ClientCallback) (hn : s.attempts ≤ n) (hlt : a.number < n)
    (ha : s.client.held = some a ∨ s.attempts ≤ a.number) (hsound : c.Sound)
    (hheld : ∀ b, c.held = some b → b = a)
    (hconnected : c.state = .connected → Connects (s.log ++ callbacks.map (.called a)) c.attempt)
    (hlost : ∀ b, s.client.held = some b →
      Connects (s.log ++ callbacks.map (.called a)) b
        ∨ Errors (s.log ++ callbacks.map (.called a)) b ∨ c.held = some b) :
    Kept { s with client := c, attempts := n, log := s.log ++ callbacks.map (.called a) } := by
  have hgrows : Grows s
      { s with client := c, attempts := n, log := s.log ++ callbacks.map (.called a) }
      (callbacks.map (.called a)) :=
    { log := rfl
      attempts := hn
      held := fun b hb => by
        obtain rfl := hheld b hb
        exact ha.imp id fun hle => ⟨hle, hlt⟩
      calls := fun b callback hmem => by
        obtain ⟨_, -, heq⟩ := List.mem_map.mp hmem
        cases heq
        exact ha
      lost := fun b hb => (hlost b hb).imp id (Or.imp id Or.inr) }
  refine h.grows hgrows hsound rfl ?_ hconnected ?_ ?_
  · intro note hmem
    obtain ⟨_, -, rfl⟩ := List.mem_map.mp hmem
    exact hlt
  · intro b ok hmem
    obtain ⟨_, -, heq⟩ := List.mem_map.mp hmem
    cases heq
  · intro b hmem
    obtain ⟨_, -, heq⟩ := List.mem_map.mp hmem
    cases heq

/-- A call of `connect`, after its `close()`. -/
theorem Kept.connects {s : ClientRun} (h : Kept s) (hfree : s.client.held = none) {a : Attempt}
    (ha : a.number = s.attempts) {turn : ClientTurn} (hturn : LinuxTcpClient.ConnectTurn a turn) :
    Kept ({ s with attempts := s.attempts + 1 }.perform turn) := by
  have hlt : a.number < s.attempts + 1 := by omega
  have hnew : s.client.held = some a ∨ s.attempts ≤ a.number := Or.inr (by omega)
  have hfresh : ∀ callback, .called a callback ∉ s.log := fun callback hmem => by
    have := h.notes _ hmem
    simp only [ClientNote.attempt] at this
    omega
  have hlost : ∀ b, s.client.held ≠ some b := fun b hb => by
    rw [hfree] at hb
    cases hb
  cases hturn with
  | refused c errorCode hidle =>
      have hkept := h.calls [.onError errorCode] (Nat.le_succ _) hlt hnew
        (.of_idle hidle) (fun b hb => by simp [LinuxTcpClient.held_of_idle hidle] at hb)
        (fun hstate => by simp [hidle] at hstate) (fun b hb => absurd hb (hlost b))
      refine hkept.push ⟨?_, ?_, ?_⟩
      · have hnone : errorCount s.log a = 0 :=
          errorCount_eq_zero fun ⟨errorCode, hmem⟩ => hfresh _ hmem
        simp only [errorCount] at hnone
        simp [errorCount, hnone, isErrorOf]
      · rintro ⟨peer, hmem⟩
        rcases List.mem_append.mp hmem with hold | hlast
        · exact hfresh _ hold
        · cases List.mem_singleton.mp hlast
      · simp [LinuxTcpClient.held_of_idle hidle]
  | connected c peer hsound hstate hattempt =>
      have hconnects : Connects (s.log ++ [.called a (.onConnect peer)]) a :=
        ⟨peer, by simp⟩
      have hkept := h.calls [.onConnect peer] (Nat.le_succ _) hlt hnew hsound
        (fun b hb => (LinuxTcpClient.held_eq_some.mp hb).2.symm.trans hattempt)
        (fun _ => hattempt ▸ hconnects) (fun b hb => absurd hb (hlost b))
      exact hkept.push (Or.inl hconnects)
  | pending c hsound hstate hattempt =>
      have hkept := h.calls [] (Nat.le_succ _) hlt hnew hsound
        (fun b hb => (LinuxTcpClient.held_eq_some.mp hb).2.symm.trans hattempt)
        (fun hconnected => by simp [hstate] at hconnected) (fun b hb => absurd hb (hlost b))
      rw [List.map_nil, List.append_nil] at hkept
      have hheld : c.held = some a :=
        LinuxTcpClient.held_eq_some.mpr ⟨by simp [hstate], hattempt⟩
      have hjustified : Justified { s with client := c, attempts := s.attempts + 1 }
          (.returns a true) := Or.inr (Or.inr (Or.inr hheld))
      exact hkept.finish hjustified fun b hb => by cases hb

/-- A call of `poll`. -/
theorem Kept.polls {s : ClientRun} (h : Kept s) {turn : ClientTurn}
    (hturn : LinuxTcpClient.PollTurn s.client turn) : Kept (s.perform turn) := by
  -- a callback about what the client holds, which leaves it in the state `c`
  have hcall : ∀ {c : LinuxTcpClient} {callback : ClientCallback}, s.client.state ≠ .idle →
      c.Sound → c.attempt = s.client.attempt →
      (c.state = .connected →
        Connects (s.log ++ [.called s.client.attempt callback]) s.client.attempt) →
      (c.state = .idle →
        Errors (s.log ++ [.called s.client.attempt callback]) s.client.attempt) →
      Kept { s with client := c, log := s.log ++ [.called s.client.attempt callback] } := by
    intro c callback hbusy hsound hattempt hconnected hidle
    have hheld := LinuxTcpClient.held_of_busy hbusy
    refine h.calls [callback] (Nat.le_refl _) (h.held _ hheld) (Or.inl hheld) hsound
      (fun b hb => (LinuxTcpClient.held_eq_some.mp hb).2.symm.trans hattempt)
      (fun hstate => hattempt ▸ hconnected hstate) ?_
    intro b hb
    obtain rfl := (LinuxTcpClient.held_eq_some.mp hb).2
    by_cases hstate : c.state = .idle
    · exact Or.inr (Or.inl (hidle hstate))
    · exact Or.inr (Or.inr (LinuxTcpClient.held_eq_some.mpr ⟨hstate, hattempt⟩))
  -- the client as it is
  have hsame : ∀ {callback : ClientCallback}, s.client.state ≠ .idle →
      Kept { s with log := s.log ++ [.called s.client.attempt callback] } :=
    fun {callback} hbusy => hcall hbusy h.sound rfl
      (fun hstate => (h.connected hstate).append _) fun hidle => absurd hidle hbusy
  cases hturn with
  | ignored => exact h
  | data hstate => exact (hsame (by simp [hstate])).push trivial
  | lost hstate =>
      refine (hsame (by simp [hstate])).push ⟨Or.inl (by simp), Or.inl ?_⟩
      exact (h.connected hstate).append _
  | failed errorCode hbusy =>
      have herrors : Errors (s.log ++ [.called s.client.attempt (.onError errorCode)])
          s.client.attempt := ⟨errorCode, by simp⟩
      exact (hsame hbusy).push ⟨Or.inr herrors, Or.inr herrors⟩
  | connected c peer hstate hsound hconnected hattempt =>
      refine (hcall (by simp [hstate]) hsound hattempt (fun _ => ⟨peer, by simp⟩) ?_).push trivial
      intro hidle
      simp [hconnected] at hidle
  | refused c errorCode hstate hidle hattempt =>
      refine (hcall (by simp [hstate]) (.of_idle hidle) hattempt ?_ ?_).push trivial
      · intro hconnected
        simp [hidle] at hconnected
      · intro _
        exact ⟨errorCode, by simp⟩

theorem kept_fresh : Kept {} where
  sound := .of_idle rfl
  held a ha := by cases ha
  notes := by simp
  connected hstate := by cases hstate
  frames := by simp
  answered := by simp
  closed := by simp

/-- **The step lemma.** -/
theorem step_kept {s s' : ClientRun} {e : ClientEvent} (h : Kept s)
    (hstep : restrict closesOwn step s e = some s') : Kept s' := by
  obtain ⟨hown, hstep⟩ := restrict_eq_some.mp hstep
  cases e with
  | connect call =>
      obtain rfl := Option.some.inj hstep
      have hdropped : Kept s.drop := h.release (Or.inl rfl)
      exact hdropped.connects (LinuxTcpClient.held_of_idle rfl) rfl
        (LinuxTcpClient.connect_turn _ _ _)
  | close =>
      obtain rfl := Option.some.inj hstep
      exact h.release (Or.inl rfl)
  | closeConnection =>
      obtain rfl := Option.some.inj hstep
      exact h.closeConnection
  | poll env =>
      obtain rfl := Option.some.inj hstep
      exact h.polls (LinuxTcpClient.poll_turn h.sound env)
  | callbackReturns =>
      simp only [step] at hstep
      split at hstep
      · cases hstep
      · rename_i frame frames hframes
        obtain rfl := Option.some.inj hstep
        have hall : ∀ f ∈ frame :: frames, s.Justified f := hframes ▸ h.frames
        obtain ⟨hframe, hrest⟩ := List.forall_mem_cons.mp hall
        have hpopped := h.setFrames hrest
        have hjustified : Justified { s with frames := frames } frame := by
          cases frame <;> exact hframe
        refine hpopped.finish hjustified ?_
        intro a ha
        subst ha
        simpa [closesOwn, hframes] using hown

/-- **In a run in which no callback about a lost connection or a failed attempt
returns with another attempt in the client's hands, every attempt has its
outcome.** -/
theorem attempts_have_outcomes {s : ClientRun} {es : List ClientEvent}
    (hrun : run (restrict closesOwn step) {} es = some s) : Outcomes s := by
  have h := run_invariant (fun _ _ _ => step_kept) kept_fresh hrun
  exact
    { refused := fun a ha => ⟨(h.answered a false ha).1, (h.answered a false ha).2.1⟩
      accepted := fun a ha => h.answered a true ha
      connection := fun a _ ha => h.closed a ha }

/-- A call of `connect` whose connection, with the file descriptor `fd`, is not made at
once. -/
def pendingCall (fd : Nat) : ConnectCall where
  options := { port := 80 }
  handler := 0
  addresses := some [{ socket := .ok fd, connectError := some EINPROGRESS }]

/-- A connection is made, and lost. -/
def sessionEvents : List ClientEvent :=
  [.connect (pendingCall 3), .poll {}, .callbackReturns, .poll { recv := .eof }]

theorem attempts_have_outcomes_session :
    ∃ s, run (restrict closesOwn step) {} (sessionEvents ++ [.callbackReturns]) = some s
      ∧ Outcomes s := by
  have hsome : (run (restrict closesOwn step) {} (sessionEvents ++ [.callbackReturns])).isSome
      = true := rfl
  obtain ⟨s, hrun⟩ := Option.isSome_iff_exists.mp hsome
  exact ⟨s, hrun, attempts_have_outcomes hrun⟩

/-- An attempt made in `on_close` is accepted, and lost without a callback. -/
theorem reconnect_torn_down :
    ∃ s, run step {} (sessionEvents ++ [.connect (pendingCall 4), .callbackReturns]) = some s
      ∧ ¬ Outcomes s := by
  have hend : (run step {} (sessionEvents ++ [.connect (pendingCall 4), .callbackReturns])).map
      (fun s => (s.client.held, s.log))
        = some (none,
          [.returned ⟨0, 0⟩ true,
            .called ⟨0, 0⟩ (.onConnect { host := "127.0.0.1", port := 80 }),
            .called ⟨0, 0⟩ .onClose,
            .dropped ⟨0, 0⟩,
            .returned ⟨1, 0⟩ true,
            .closed ⟨1, 0⟩]) := rfl
  obtain ⟨s, hrun, hs⟩ := Option.map_eq_some_iff.mp hend
  obtain ⟨hheld, hlog⟩ := Prod.mk.inj hs
  refine ⟨s, hrun, ?_⟩
  intro h
  have hlost := h.accepted ⟨1, 0⟩ (by simp [hlog])
  simp [hheld, hlog, Connects, Errors] at hlost

end ClientRun

end AsyncEventLoop
