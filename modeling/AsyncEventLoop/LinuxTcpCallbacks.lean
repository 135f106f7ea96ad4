import Mathlib.Data.List.Pairwise
import AsyncEventLoop.TcpSlotOwnership

/-!
# The callbacks of the Linux TCP server

`LinuxTcpServer` again, one libevent callback after the other, with whatever
the application does in between. A callback of the handler is made from a
trampoline that goes on when the callback returns: every one of them sweeps
the closed connections, and the one for bufferevent events closes its
connection before that.

The log has the callbacks of the handler, and every time a connection is
closed, destroyed, or has a member read or written. A member function that is
called on a connection that was destroyed shows in the log and changes nothing
else; `LinuxTcpShutdown` is about the runs without any.

The callbacks a connection receives come in the order of its life, and none
comes behind its `close()` (`FollowsProtocol`, `QuietAfterClose`).
-/

namespace AsyncEventLoop

open Runs

/-! ## The server and its trampolines -/

def ETIMEDOUT : Int := 110

/-- The callbacks of `ITcpServerHandler` about a connection. -/
inductive TcpServerCallback where
  | onAccept (peer : TcpPeerInfo)
  | onData
  | onWriteReady
  | onClose
  | onError (errorCode : Int)
  deriving DecidableEq

/-- `touched`: a member function, other than the destructor, has read or written the
connection. `rejected`: the socket was closed, and no connection made of it. -/
inductive TcpServerNote where
  | called (callback : TcpServerCallback) (connection : Nat)
  | rejected (connection : Nat)
  | closed (connection : Nat)
  | touched (connection : Nat)
  | destroyed (connection : Nat)
  deriving DecidableEq

/-- The trampoline that waits for a callback of the handler to return. -/
inductive Trampoline where
  | acceptCallback
  | readCallback
  | writeCallback
  | eventCallback (connection : Nat)
  deriving DecidableEq

/-- Every socket that comes in gets the next id. -/
structure TcpServerRun where
  server : LinuxTcpServer
  nextId : Nat := 0
  running : Option Trampoline := none
  log : List TcpServerNote := []

namespace TcpServerRun

/-- A server that listens. -/
def listening (maxConnections : Nat) : TcpServerRun :=
  { server := { maxConnections := maxConnections } }

def note (s : TcpServerRun) (notes : List TcpServerNote) : TcpServerRun :=
  { s with log := s.log ++ notes }

/-- A callback of the handler, made from a trampoline. -/
def call (s : TcpServerRun) (callback : TcpServerCallback) (connection : Nat)
    (trampoline : Trampoline) : TcpServerRun :=
  { s with running := some trampoline, log := s.log ++ [.called callback connection] }

/-- What the sweep does to one connection. -/
def sweepNotes (k : LinuxTcpConnection) : List TcpServerNote :=
  .touched k.id :: if k.removeRequested then [.destroyed k.id] else []

def sweepClosed (s : TcpServerRun) : TcpServerRun :=
  { s with
    server := s.server.sweepClosed
    log := s.log ++ s.server.connections.flatMap sweepNotes }

/-- `close` of a connection. -/
def closeConnection (s : TcpServerRun) (connection : Nat) : TcpServerRun :=
  { s with
    server := s.server.closeConnection connection
    log := s.log ++ [.touched connection, .closed connection] }

/-- `close` of the server: it detaches the connections and then destroys them. -/
def close (s : TcpServerRun) : TcpServerRun :=
  { s with
    server := s.server.close
    log := s.log ++ (s.server.owned.map .touched ++ s.server.owned.map .destroyed) }

/-- `listen`; `bound` says whether there is a listener then. -/
def listen (s : TcpServerRun) (bound : Bool) : TcpServerRun :=
  { s.close with server := { s.close.server with handler := bound } }

def remove (s : TcpServerRun) (connection : Nat) : TcpServerRun :=
  (s.closeConnection connection).sweepClosed

/-- `connection_count` asks every connection whether it is valid. -/
def connectionCount (s : TcpServerRun) : Nat × TcpServerRun :=
  (s.server.connectionCount, s.note (s.server.owned.map .touched))

/-- A connection that turns out valid. -/
def push (s : TcpServerRun) (connection : Nat) : TcpServerRun :=
  { s.note [.touched connection] with server := s.server.pushBack { id := connection } }

/-- `opened` says that the bufferevent could be made. -/
def acceptCallback (s : TcpServerRun) (peer : TcpPeerInfo) (opened : Bool) : TcpServerRun :=
  let connection := s.nextId
  let s := { s with nextId := s.nextId + 1 }
  if !s.server.handler then s.note [.rejected connection]
  else
    let count := s.sweepClosed.connectionCount
    if count.1 ≥ count.2.server.maxConnections then count.2.note [.rejected connection]
    else if !opened then
      count.2.note [.touched connection, .destroyed connection, .rejected connection]
    else (count.2.push connection).call (.onAccept peer) connection .acceptCallback

def readCallback (s : TcpServerRun) (connection : Nat) : TcpServerRun :=
  let s := s.note [.touched connection]
  if s.server.isValid connection then s.call .onData connection .readCallback
  else s.sweepClosed

def writeCallback (s : TcpServerRun) (connection : Nat) : TcpServerRun :=
  let s := s.note [.touched connection]
  if s.server.isValid connection then s.call .onWriteReady connection .writeCallback
  else s.sweepClosed

/-- `event_callback` with `notify_event`. -/
def eventCallback (s : TcpServerRun) (connection : Nat) (timeout error eof : Bool)
    (errno : Int) : TcpServerRun :=
  let s := s.note [.touched connection]
  if timeout then s.call (.onError ETIMEDOUT) connection (.eventCallback connection)
  else if error then s.call (.onError errno) connection (.eventCallback connection)
  else if eof then s.call .onClose connection (.eventCallback connection)
  else s.sweepClosed

/-- The callback returns, and its trampoline goes on. -/
def callbackReturns (s : TcpServerRun) : Trampoline → TcpServerRun
  | .eventCallback connection =>
      ({ s with running := none }.closeConnection connection).sweepClosed
  | _ => { s with running := none }.sweepClosed

end TcpServerRun

/-- libevent's callbacks, the calls of the application, and the return of a callback
of the handler. `timeout`, `error` and `eof` are the flags of a bufferevent's
event; `use` is any member function of a connection other than `close`. -/
inductive TcpServerEvent where
  | accept (peer : TcpPeerInfo) (opened : Bool)
  | readable (connection : Nat)
  | writable (connection : Nat)
  | event (connection : Nat) (timeout error eof : Bool) (errno : Int)
  | closeConnection (connection : Nat)
  | use (connection : Nat)
  | remove (connection : Nat)
  | close
  | listen (bound : Bool)
  | callbackReturns

namespace TcpServerRun

/-- libevent makes a callback when none is running, and for bufferevents that have
not been freed; the application uses the connections that the server has. -/
def enabled (s : TcpServerRun) : TcpServerEvent → Bool
  | .accept _ _ => s.running.isNone
  | .readable connection => s.running.isNone && s.server.isValid connection
  | .writable connection => s.running.isNone && s.server.isValid connection
  | .event connection _ _ _ _ => s.running.isNone && s.server.isValid connection
  | .closeConnection connection => decide (connection ∈ s.server.owned)
  | .use connection => decide (connection ∈ s.server.owned)
  | .remove connection => decide (connection ∈ s.server.owned)
  | .close => true
  | .listen _ => true
  | .callbackReturns => s.running.isSome

def next (s : TcpServerRun) : TcpServerEvent → TcpServerRun
  | .accept peer opened => s.acceptCallback peer opened
  | .readable connection => s.readCallback connection
  | .writable connection => s.writeCallback connection
  | .event connection timeout error eof errno =>
      s.eventCallback connection timeout error eof errno
  | .closeConnection connection => s.closeConnection connection
  | .use connection => s.note [.touched connection]
  | .remove connection => s.remove connection
  | .close => s.close
  | .listen bound => s.listen bound
  | .callbackReturns => s.callbackReturns (s.running.getD .acceptCallback)

def step (s : TcpServerRun) (e : TcpServerEvent) : Option TcpServerRun :=
  if s.enabled e then some (s.next e) else none

end TcpServerRun

/-! ## What the log should say -/

/-- The callbacks of one connection. -/
def callbacksOf (connection : Nat) (log : List TcpServerNote) : List TcpServerCallback :=
  log.filterMap fun
    | .called callback c => if c = connection then some callback else none
    | _ => none

def TcpServerCallback.streams : TcpServerCallback → Bool
  | .onData | .onWriteReady => true
  | _ => false

def TcpServerCallback.ends : TcpServerCallback → Bool
  | .onClose | .onError _ => true
  | _ => false

/-- `on_accept`, and then any mix of `on_data` and `on_write_ready`. -/
def StillOpen (callbacks : List TcpServerCallback) : Prop :=
  ∃ peer stream, callbacks = .onAccept peer :: stream ∧ ∀ k ∈ stream, k.streams = true

/-- The same, and then at most one of `on_close` and `on_error`. -/
def FollowsProtocol (callbacks : List TcpServerCallback) : Prop :=
  StillOpen callbacks
    ∨ ∃ before last, callbacks = before ++ [last] ∧ StillOpen before ∧ last.ends = true

/-- No callback behind a connection's `close()`. -/
def QuietAfterClose (log : List TcpServerNote) : Prop :=
  log.Pairwise fun earlier later =>
    ∀ connection callback, earlier = .closed connection → later ≠ .called callback connection

theorem StillOpen.stream {callbacks : List TcpServerCallback} (h : StillOpen callbacks)
    {callback : TcpServerCallback} (hstreams : callback.streams = true) :
    StillOpen (callbacks ++ [callback]) := by
  obtain ⟨peer, stream, rfl, hstream⟩ := h
  refine ⟨peer, stream ++ [callback], rfl, ?_⟩
  exact List.forall_mem_append.mpr ⟨hstream, List.forall_mem_singleton.mpr hstreams⟩

theorem StillOpen.accepted (peer : TcpPeerInfo) : StillOpen [.onAccept peer] :=
  ⟨peer, [], rfl, List.forall_mem_nil _⟩

theorem callbacksOf_append (connection : Nat) (log notes : List TcpServerNote) :
    callbacksOf connection (log ++ notes)
      = callbacksOf connection log ++ callbacksOf connection notes :=
  List.filterMap_append

theorem mem_callbacksOf {connection : Nat} {log : List TcpServerNote}
    {callback : TcpServerCallback} :
    callback ∈ callbacksOf connection log ↔ .called callback connection ∈ log := by
  unfold callbacksOf
  rw [List.mem_filterMap]
  constructor
  · rintro ⟨note, hnote, heq⟩
    cases note <;> simp at heq
    obtain ⟨rfl, rfl⟩ := heq
    exact hnote
  · exact fun h => ⟨_, h, if_pos rfl⟩

theorem callbacksOf_silent {connection : Nat} {notes : List TcpServerNote}
    (h : ∀ callback, .called callback connection ∉ notes) : callbacksOf connection notes = [] :=
  List.eq_nil_iff_forall_not_mem.mpr fun callback hmem => h callback (mem_callbacksOf.mp hmem)

/-- Notes without a callback change nothing for any connection. -/
theorem callbacksOf_append_silent {connection : Nat} {log notes : List TcpServerNote}
    (h : ∀ callback, .called callback connection ∉ notes) :
    callbacksOf connection (log ++ notes) = callbacksOf connection log := by
  rw [callbacksOf_append, callbacksOf_silent h, List.append_nil]

namespace TcpServerRun

/-! ## What makes no callback -/

/-- The notes of an operation that makes no callback. Only a connection the server
has had is closed, and it is not valid then. -/
structure Silent (s : TcpServerRun) (notes : List TcpServerNote) : Prop where
  callback : ∀ callback connection, .called callback connection ∉ notes
  rejected : ∀ connection, .rejected connection ∉ notes
  closed : ∀ connection, .closed connection ∈ notes →
    connection < s.nextId ∧ s.server.isValid connection = false

theorem Silent.append {s t : TcpServerRun} {notes notes' : List TcpServerNote}
    (h : Silent s notes) (hnext : t.nextId = s.nextId)
    (hvalid : ∀ c, t.server.isValid c = true → s.server.isValid c = true)
    (h' : Silent t notes') : Silent t (notes ++ notes') where
  callback callback connection hmem :=
    (List.mem_append.mp hmem).elim (h.callback callback connection)
      (h'.callback callback connection)
  rejected connection hmem :=
    (List.mem_append.mp hmem).elim (h.rejected connection) (h'.rejected connection)
  closed connection hmem := by
    rcases List.mem_append.mp hmem with hmem | hmem
    · obtain ⟨hold, hclosed⟩ := h.closed connection hmem
      refine ⟨hnext ▸ hold, ?_⟩
      rw [Bool.eq_false_iff] at hclosed ⊢
      exact fun h => hclosed (hvalid connection h)
    · exact h'.closed connection hmem

/-- What every operation of the server does that makes no callback. -/
structure Shrinks (s t : TcpServerRun) : Prop where
  running : t.running = s.running
  maxConnections : t.server.maxConnections = s.server.maxConnections
  nextId : t.nextId = s.nextId
  valid : ∀ c, t.server.isValid c = true → s.server.isValid c = true
  count : t.server.connectionCount ≤ s.server.connectionCount
  server : s.server.WellFormed s.nextId → t.server.WellFormed t.nextId
  log : ∃ notes, t.log = s.log ++ notes ∧ Silent t notes

theorem Shrinks.trans {s t u : TcpServerRun} (h : Shrinks s t) (h' : Shrinks t u) :
    Shrinks s u where
  running := h'.running.trans h.running
  maxConnections := h'.maxConnections.trans h.maxConnections
  nextId := h'.nextId.trans h.nextId
  valid c hvalid := h.valid c (h'.valid c hvalid)
  count := Nat.le_trans h'.count h.count
  server hserver := h'.server (h.server hserver)
  log := by
    obtain ⟨notes, hnotes, hsilent⟩ := h.log
    obtain ⟨notes', hnotes', hsilent'⟩ := h'.log
    refine ⟨notes ++ notes', ?_, hsilent.append h'.nextId h'.valid hsilent'⟩
    rw [hnotes', hnotes, List.append_assoc]

/-- Notes of what was touched or destroyed. -/
def MemoryNotes (notes : List TcpServerNote) : Prop :=
  ∀ note ∈ notes, ∃ c, note = .touched c ∨ note = .destroyed c

theorem MemoryNotes.silent {notes : List TcpServerNote} (h : MemoryNotes notes)
    (s : TcpServerRun) : Silent s notes := by
  refine ⟨?_, ?_, ?_⟩
  · intro callback connection hmem
    obtain ⟨c, hc | hc⟩ := h _ hmem <;> cases hc
  · intro connection hmem
    obtain ⟨c, hc | hc⟩ := h _ hmem <;> cases hc
  · intro connection hmem
    obtain ⟨c, hc | hc⟩ := h _ hmem <;> cases hc

/-- The server may drop connections, and touch what it likes. -/
theorem shrinks_sublist {s t : TcpServerRun} {notes : List TcpServerNote}
    (hrunning : t.running = s.running)
    (hmax : t.server.maxConnections = s.server.maxConnections) (hnext : t.nextId = s.nextId)
    (hsub : t.server.connections.Sublist s.server.connections)
    (hlog : t.log = s.log ++ notes) (hnotes : MemoryNotes notes) : Shrinks s t where
  running := hrunning
  maxConnections := hmax
  nextId := hnext
  valid c hvalid := by
    obtain ⟨k, hk, hid⟩ := LinuxTcpServer.isValid_iff.mp hvalid
    exact LinuxTcpServer.isValid_iff.mpr ⟨k, hsub.subset hk, hid⟩
  count := hsub.countP_le
  server h := by
    have howned : t.server.owned.Sublist s.server.owned := hsub.map _
    exact ⟨h.ids.sublist howned, fun c hc => hnext ▸ h.old c (howned.subset hc),
      fun k hk => h.marked k (hsub.subset hk)⟩
  log := ⟨notes, hlog, hnotes.silent t⟩

theorem sweepNotes_memory (k : LinuxTcpConnection) : MemoryNotes (sweepNotes k) := by
  intro note hmem
  rcases List.mem_cons.mp hmem with rfl | hmem
  · exact ⟨k.id, Or.inl rfl⟩
  · split at hmem
    · exact ⟨k.id, Or.inr (List.mem_singleton.mp hmem)⟩
    · cases hmem

theorem touched_memory (connections : List Nat) :
    MemoryNotes (connections.map .touched) := by
  intro note hmem
  obtain ⟨c, -, rfl⟩ := List.mem_map.mp hmem
  exact ⟨c, Or.inl rfl⟩

theorem shrinks_sweepClosed (s : TcpServerRun) : Shrinks s s.sweepClosed := by
  refine shrinks_sublist rfl rfl rfl List.filter_sublist rfl ?_
  intro note hmem
  obtain ⟨k, -, hk⟩ := List.mem_flatMap.mp hmem
  exact sweepNotes_memory k note hk

theorem shrinks_touch (s : TcpServerRun) (connections : List Nat) :
    Shrinks s (s.note (connections.map .touched)) :=
  shrinks_sublist rfl rfl rfl (List.Sublist.refl _) rfl (touched_memory connections)

theorem close_memory (s : TcpServerRun) :
    MemoryNotes (s.server.owned.map .touched ++ s.server.owned.map .destroyed) := by
  intro note hmem
  rcases List.mem_append.mp hmem with hmem | hmem
  · exact touched_memory _ note hmem
  · obtain ⟨c, -, rfl⟩ := List.mem_map.mp hmem
    exact ⟨c, Or.inr rfl⟩

theorem shrinks_close (s : TcpServerRun) : Shrinks s s.close :=
  shrinks_sublist rfl rfl rfl (List.nil_sublist _) rfl s.close_memory

theorem shrinks_listen (s : TcpServerRun) (bound : Bool) : Shrinks s (s.listen bound) :=
  shrinks_sublist rfl rfl rfl (List.nil_sublist _) rfl s.close_memory

theorem shrinks_closeConnection {s : TcpServerRun} {connection : Nat}
    (hold : connection < s.nextId) : Shrinks s (s.closeConnection connection) where
  running := rfl
  maxConnections := rfl
  nextId := rfl
  valid _ hvalid := (LinuxTcpServer.closeConnection_isValid.mp hvalid).2
  count := by
    simp only [closeConnection, LinuxTcpServer.connectionCount, LinuxTcpServer.closeConnection,
      List.countP_map]
    refine List.countP_mono_left ?_
    intro k _ hk
    rw [Function.comp_apply] at hk
    split at hk
    · cases hk
    · exact hk
  server h := h.closeConnection connection
  log := by
    refine ⟨_, rfl, ?_, ?_, ?_⟩
    · simp
    · simp
    · intro c hmem
      have hc : c = connection := by simpa using hmem
      subst hc
      refine ⟨hold, Bool.eq_false_iff.mpr ?_⟩
      exact fun hvalid => (LinuxTcpServer.closeConnection_isValid.mp hvalid).1 rfl

theorem shrinks_remove {s : TcpServerRun} {connection : Nat} (hold : connection < s.nextId) :
    Shrinks s (s.remove connection) :=
  (shrinks_closeConnection hold).trans (shrinks_sweepClosed _)

/-! ## The protocol -/

/-- A callback about a bufferevent is running that ends its connection. -/
def Ending (s : TcpServerRun) (connection : Nat) : Prop :=
  s.running = some (.eventCallback connection)

theorem not_ending_of_idle {s : TcpServerRun} (hidle : s.running = none) (connection : Nat) :
    ¬Ending s connection := by
  intro hending
  rw [Ending, hidle] at hending
  cases hending

structure Follows (s : TcpServerRun) : Prop where
  server : s.server.WellFormed s.nextId
  count : s.server.connectionCount ≤ s.server.maxConnections
  called : ∀ callback connection, .called callback connection ∈ s.log → connection < s.nextId
  rejected : ∀ connection, .rejected connection ∈ s.log →
    connection < s.nextId ∧ s.server.isValid connection = false
      ∧ callbacksOf connection s.log = []
  closed : ∀ connection, .closed connection ∈ s.log →
    connection < s.nextId ∧ s.server.isValid connection = false
  quiet : QuietAfterClose s.log
  protocol : ∀ connection, connection < s.nextId → .rejected connection ∉ s.log →
    FollowsProtocol (callbacksOf connection s.log)
  valid : ∀ connection, s.server.isValid connection = true → ¬Ending s connection →
    StillOpen (callbacksOf connection s.log)
  ending : ∀ connection, Ending s connection → connection < s.nextId

theorem quiet_append {log notes : List TcpServerNote} (h : QuietAfterClose log)
    (hnotes : ∀ callback connection, .called callback connection ∉ notes) :
    QuietAfterClose (log ++ notes) := by
  refine List.pairwise_append.mpr ⟨h, ?_, ?_⟩
  · refine List.pairwise_of_forall_mem_list ?_
    rintro earlier - later hlater connection callback - rfl
    exact hnotes callback connection hlater
  · rintro earlier - later hlater connection callback - rfl
    exact hnotes callback connection hlater

theorem quiet_call {log : List TcpServerNote} (h : QuietAfterClose log) {connection : Nat}
    (hclosed : .closed connection ∉ log) (callback : TcpServerCallback) :
    QuietAfterClose (log ++ [.called callback connection]) := by
  refine List.pairwise_append.mpr ⟨h, List.pairwise_singleton _ _, ?_⟩
  rintro earlier hearlier later hlater c k rfl heq
  obtain rfl := List.mem_singleton.mp hlater
  cases heq
  exact hclosed hearlier

/-- Nothing has happened yet to the next connection. -/
theorem Follows.fresh {s : TcpServerRun} (h : Follows s) :
    s.server.isValid s.nextId = false ∧ callbacksOf s.nextId s.log = [] := by
  constructor
  · refine Bool.eq_false_iff.mpr fun hvalid => ?_
    exact Nat.lt_irrefl _ (h.server.old _ (LinuxTcpServer.owned_of_isValid hvalid))
  · exact callbacksOf_silent fun k hmem => Nat.lt_irrefl _ (h.called k _ hmem)

theorem Follows.shrinks {s t : TcpServerRun} (h : Follows s) (hshrinks : Shrinks s t) :
    Follows t := by
  obtain ⟨notes, hlog, hsilent⟩ := hshrinks.log
  have hcallbacks : ∀ c, callbacksOf c t.log = callbacksOf c s.log := by
    intro c
    rw [hlog, callbacksOf_append_silent fun k => hsilent.callback k c]
  have hinvalid : ∀ c, s.server.isValid c = false → t.server.isValid c = false := by
    intro c hc
    rw [Bool.eq_false_iff] at hc ⊢
    exact fun hvalid => hc (hshrinks.valid c hvalid)
  have hending : ∀ c, Ending t c ↔ Ending s c := by
    intro c
    rw [Ending, Ending, hshrinks.running]
  constructor
  case server => exact hshrinks.server h.server
  case count => exact hshrinks.maxConnections ▸ Nat.le_trans hshrinks.count h.count
  case called =>
    intro k c hmem
    rw [hlog] at hmem
    rw [hshrinks.nextId]
    exact h.called k c ((List.mem_append.mp hmem).resolve_right (hsilent.callback k c))
  case rejected =>
    intro c hmem
    rw [hlog] at hmem
    obtain ⟨hold, hc, hnone⟩ :=
      h.rejected c ((List.mem_append.mp hmem).resolve_right (hsilent.rejected c))
    exact ⟨hshrinks.nextId ▸ hold, hinvalid c hc, (hcallbacks c).trans hnone⟩
  case closed =>
    intro c hmem
    rw [hlog] at hmem
    rcases List.mem_append.mp hmem with hmem | hmem
    · obtain ⟨hold, hc⟩ := h.closed c hmem
      exact ⟨hshrinks.nextId ▸ hold, hinvalid c hc⟩
    · exact hsilent.closed c hmem
  case quiet => exact hlog ▸ quiet_append h.quiet hsilent.callback
  case protocol =>
    intro c hc hnot
    rw [hcallbacks]
    refine h.protocol c (hshrinks.nextId ▸ hc) ?_
    exact fun hmem => hnot (hlog ▸ List.mem_append_left notes hmem)
  case valid =>
    intro c hc hnot
    rw [hcallbacks]
    exact h.valid c (hshrinks.valid c hc) fun hs => hnot ((hending c).mpr hs)
  case ending =>
    intro c hc
    exact hshrinks.nextId ▸ h.ending c ((hending c).mp hc)

/-- Once the trampoline is through, its connection is not valid any more. -/
theorem Follows.settle {s : TcpServerRun} (h : Follows s)
    (hended : ∀ connection, Ending s connection → s.server.isValid connection = false) :
    Follows { s with running := none } where
  server := h.server
  count := h.count
  called := h.called
  rejected := h.rejected
  closed := h.closed
  quiet := h.quiet
  protocol := h.protocol
  valid connection hvalid _ := h.valid connection hvalid fun hending => by
    rw [hended connection hending] at hvalid
    cases hvalid
  ending _ hending := by cases hending

theorem mem_call {s : TcpServerRun} {callback : TcpServerCallback} {connection : Nat}
    {trampoline : Trampoline} {note : TcpServerNote} :
    note ∈ (s.call callback connection trampoline).log
      ↔ note ∈ s.log ∨ note = .called callback connection := by
  simp [call]

theorem callbacksOf_call (s : TcpServerRun) (callback : TcpServerCallback) (c : Nat)
    (trampoline : Trampoline) (connection : Nat) :
    callbacksOf c (s.call callback connection trampoline).log
      = callbacksOf c s.log ++ (if connection = c then [callback] else []) := by
  rw [call, callbacksOf_append]
  by_cases hc : connection = c <;> simp [callbacksOf, hc]

/-- The handler is called for a connection that is valid. -/
theorem Follows.call {s : TcpServerRun} (h : Follows s) (hidle : s.running = none)
    {connection : Nat} (hvalid : s.server.isValid connection = true)
    {callback : TcpServerCallback} {trampoline : Trampoline}
    (hkind : (callback.streams = true ∧ ∀ c, trampoline ≠ .eventCallback c)
      ∨ (callback.ends = true ∧ trampoline = .eventCallback connection)) :
    Follows (s.call callback connection trampoline) := by
  have hopen := h.valid connection hvalid (not_ending_of_idle hidle connection)
  have hopenNext : callback.streams = true →
      StillOpen (callbacksOf connection s.log ++ [callback]) := hopen.stream
  have hclosed : .closed connection ∉ s.log := by
    intro hmem
    rw [(h.closed connection hmem).2] at hvalid
    cases hvalid
  have hold : connection < s.nextId :=
    h.server.old connection (LinuxTcpServer.owned_of_isValid hvalid)
  constructor
  case server => exact h.server
  case count => exact h.count
  case called =>
    intro k c hmem
    rcases List.mem_append.mp hmem with hmem | hmem
    · exact h.called k c hmem
    · cases List.mem_singleton.mp hmem
      exact hold
  case rejected =>
    intro c hmem
    obtain ⟨hc, hinvalid, hnone⟩ :=
      h.rejected c ((List.mem_append.mp hmem).resolve_right (by simp))
    have hne : connection ≠ c := by
      rintro rfl
      rw [show s.server.isValid connection = false from hinvalid] at hvalid
      cases hvalid
    refine ⟨hc, hinvalid, ?_⟩
    rw [callbacksOf_call, hnone, if_neg hne, List.append_nil]
  case closed =>
    intro c hmem
    exact h.closed c ((List.mem_append.mp hmem).resolve_right (by simp))
  case quiet => exact quiet_call h.quiet hclosed callback
  case protocol =>
    intro c hc hnot
    rw [callbacksOf_call]
    by_cases heq : connection = c
    · subst heq
      rw [if_pos rfl]
      rcases hkind with ⟨hstreams, -⟩ | ⟨hends, -⟩
      · exact Or.inl (hopenNext hstreams)
      · exact Or.inr ⟨_, callback, rfl, hopen, hends⟩
    · rw [if_neg heq, List.append_nil]
      exact h.protocol c hc fun hmem => hnot (List.mem_append_left _ hmem)
  case valid =>
    intro c hc hnot
    rw [callbacksOf_call]
    by_cases heq : connection = c
    · subst heq
      rw [if_pos rfl]
      rcases hkind with ⟨hstreams, -⟩ | ⟨-, htrampoline⟩
      · exact hopenNext hstreams
      · exact absurd (congrArg some htrampoline) hnot
    · rw [if_neg heq, List.append_nil]
      exact h.valid c hc (not_ending_of_idle hidle c)
  case ending =>
    intro c hending
    rcases hkind with ⟨-, hother⟩ | ⟨-, htrampoline⟩
    · exact absurd (Option.some.inj hending) (hother c)
    · have heq := Option.some.inj hending
      rw [htrampoline] at heq
      cases heq
      exact hold

/-- A socket is closed that no connection was made of. -/
theorem Follows.reject {s : TcpServerRun} (h : Follows s) {notes : List TcpServerNote}
    (hnotes : MemoryNotes notes) :
    Follows { s.note (notes ++ [.rejected s.nextId]) with nextId := s.nextId + 1 } := by
  have hsilent : ∀ k c, .called k c ∉ notes ++ [.rejected s.nextId] := by
    intro k c hmem
    rcases List.mem_append.mp hmem with hmem | hmem
    · exact (hnotes.silent s).callback k c hmem
    · cases List.mem_singleton.mp hmem
  have hcallbacks : ∀ c, callbacksOf c (s.log ++ (notes ++ [.rejected s.nextId]))
      = callbacksOf c s.log := by
    intro c
    exact callbacksOf_append_silent fun k => hsilent k c
  constructor
  case server =>
    exact ⟨h.server.ids, fun c hc => Nat.lt_succ_of_lt (h.server.old c hc), h.server.marked⟩
  case count => exact h.count
  case called =>
    intro k c hmem
    exact Nat.lt_succ_of_lt
      (h.called k c ((List.mem_append.mp hmem).resolve_right (hsilent k c)))
  case rejected =>
    intro c hmem
    dsimp only [note]
    rw [hcallbacks]
    rcases List.mem_append.mp hmem with hmem | hmem
    · obtain ⟨hold, hrest⟩ := h.rejected c hmem
      exact ⟨Nat.lt_succ_of_lt hold, hrest⟩
    · rcases List.mem_append.mp hmem with hmem | hmem
      · exact absurd hmem ((hnotes.silent s).rejected c)
      · cases List.mem_singleton.mp hmem
        exact ⟨Nat.lt_succ_self _, h.fresh⟩
  case closed =>
    intro c hmem
    rcases List.mem_append.mp hmem with hmem | hmem
    · obtain ⟨hold, hclosed⟩ := h.closed c hmem
      exact ⟨Nat.lt_succ_of_lt hold, hclosed⟩
    · rcases List.mem_append.mp hmem with hmem | hmem
      · obtain ⟨d, hd | hd⟩ := hnotes _ hmem <;> cases hd
      · cases List.mem_singleton.mp hmem
  case quiet => exact quiet_append h.quiet hsilent
  case protocol =>
    intro c hc hnot
    dsimp only [note] at hnot ⊢
    rw [hcallbacks]
    have hne : c ≠ s.nextId := by
      rintro rfl
      exact hnot (by simp)
    have hlt : c < s.nextId := Nat.lt_of_le_of_ne (Nat.lt_succ_iff.mp hc) hne
    exact h.protocol c hlt fun hmem => hnot (List.mem_append_left _ hmem)
  case valid =>
    intro c hc hnot
    dsimp only [note]
    rw [hcallbacks]
    exact h.valid c hc hnot
  case ending => exact fun c hc => Nat.lt_succ_of_lt (h.ending c hc)

/-- There is room for a connection, and one is made. -/
theorem Follows.accept {s : TcpServerRun} (h : Follows s) (hidle : s.running = none)
    (hroom : s.server.connectionCount < s.server.maxConnections) (peer : TcpPeerInfo) :
    Follows (({ s with nextId := s.nextId + 1 }.push s.nextId).call (.onAccept peer) s.nextId
      .acceptCallback) := by
  generalize hpush : ({ s with nextId := s.nextId + 1 } : TcpServerRun).push s.nextId = t
  have hnext : t.nextId = s.nextId + 1 := hpush ▸ rfl
  have hlog : t.log = s.log ++ [.touched s.nextId] := hpush ▸ rfl
  have hvalid : ∀ c, t.server.isValid c = true ↔ s.server.isValid c = true ∨ s.nextId = c :=
    fun c => hpush ▸ LinuxTcpServer.pushBack_isValid
  have hmem : ∀ note, (∀ c, note ≠ .touched c) → (note ∈ t.log ↔ note ∈ s.log) := by
    intro note hnot
    simp [hlog, hnot]
  have hnew : ∀ c, callbacksOf c t.log = callbacksOf c s.log := by
    intro c
    rw [hlog, callbacksOf_append_silent (by simp)]
  -- what was known to be closed is old, so it is not the new connection
  have hinvalid : ∀ c, c < s.nextId → s.server.isValid c = false → t.server.isValid c = false := by
    intro c hold hc
    refine Bool.eq_false_iff.mpr fun hc' => ?_
    rcases (hvalid c).mp hc' with hc' | heq
    · rw [hc] at hc'
      cases hc'
    · exact Nat.ne_of_gt hold heq
  constructor
  case server =>
    subst hpush
    exact h.server.pushBack
  case count =>
    subst hpush
    change (s.server.connections ++ [_]).countP _ ≤ s.server.maxConnections
    rw [List.countP_append]
    exact hroom
  case called =>
    intro k c hk
    refine Nat.lt_of_lt_of_eq ?_ hnext.symm
    rcases mem_call.mp hk with hk | hk
    · exact Nat.lt_succ_of_lt (h.called k c ((hmem _ (by simp)).mp hk))
    · cases hk
      exact Nat.lt_succ_self _
  case rejected =>
    intro c hc
    have hc := (hmem _ (by simp)).mp ((mem_call.mp hc).resolve_right (by simp))
    obtain ⟨hold, hcs, hnone⟩ := h.rejected c hc
    refine ⟨Nat.lt_of_lt_of_eq (Nat.lt_succ_of_lt hold) hnext.symm, hinvalid c hold hcs, ?_⟩
    rw [callbacksOf_call, if_neg (Nat.ne_of_gt hold), List.append_nil, hnew, hnone]
  case closed =>
    intro c hc
    have hc := (hmem _ (by simp)).mp ((mem_call.mp hc).resolve_right (by simp))
    obtain ⟨hold, hcs⟩ := h.closed c hc
    exact ⟨Nat.lt_of_lt_of_eq (Nat.lt_succ_of_lt hold) hnext.symm, hinvalid c hold hcs⟩
  case quiet =>
    have hquiet : QuietAfterClose t.log := hlog ▸ quiet_append h.quiet (by simp)
    refine quiet_call hquiet (fun hclosed => ?_) _
    exact Nat.lt_irrefl _ (h.closed _ ((hmem _ (by simp)).mp hclosed)).1
  case protocol =>
    intro c hc hnot
    rw [callbacksOf_call, hnew]
    by_cases heq : s.nextId = c
    · subst heq
      rw [h.fresh.2, if_pos rfl]
      exact Or.inl (StillOpen.accepted peer)
    · rw [if_neg heq, List.append_nil]
      have hlt : c < s.nextId + 1 := Nat.lt_of_lt_of_eq hc hnext
      refine h.protocol c (Nat.lt_of_le_of_ne (Nat.lt_succ_iff.mp hlt) (Ne.symm heq)) ?_
      exact fun hc => hnot (mem_call.mpr (Or.inl ((hmem _ (by simp)).mpr hc)))
  case valid =>
    intro c hc _
    rw [callbacksOf_call, hnew]
    by_cases heq : s.nextId = c
    · subst heq
      rw [h.fresh.2, if_pos rfl]
      exact StillOpen.accepted peer
    · rw [if_neg heq, List.append_nil]
      exact h.valid c (((hvalid c).mp hc).resolve_right heq) (not_ending_of_idle hidle c)
  case ending =>
    intro c hending
    cases hending

theorem Follows.acceptCallback {s : TcpServerRun} (h : Follows s) (hidle : s.running = none)
    (peer : TcpPeerInfo) (opened : Bool) : Follows (s.acceptCallback peer opened) := by
  have hcounted : Follows s.sweepClosed.connectionCount.2 :=
    h.shrinks ((shrinks_sweepClosed s).trans (shrinks_touch _ _))
  unfold TcpServerRun.acceptCallback
  dsimp only
  split
  · exact h.reject (List.forall_mem_nil _)
  · split
    · exact hcounted.reject (List.forall_mem_nil _)
    · rename_i hroom
      split
      · have hnotes : MemoryNotes [.touched s.nextId, .destroyed s.nextId] :=
          List.forall_mem_cons.mpr
            ⟨⟨_, Or.inl rfl⟩, List.forall_mem_singleton.mpr ⟨_, Or.inr rfl⟩⟩
        exact hcounted.reject hnotes
      · exact hcounted.accept hidle (Nat.lt_of_not_le hroom) peer

theorem Follows.callbackReturns {s : TcpServerRun} (h : Follows s) {trampoline : Trampoline}
    (hrunning : s.running = some trampoline) : Follows (s.callbackReturns trampoline) := by
  have hswept : ∀ {t : TcpServerRun}, Follows t → Follows t.sweepClosed :=
    fun ht => ht.shrinks (shrinks_sweepClosed _)
  have hother : (∀ c, trampoline ≠ .eventCallback c) →
      Follows { s with running := none }.sweepClosed := by
    intro hne
    refine hswept (h.settle ?_)
    intro c hending
    rw [Ending, hrunning] at hending
    exact absurd (Option.some.inj hending) (hne c)
  cases trampoline with
  | acceptCallback => exact hother (by simp)
  | readCallback => exact hother (by simp)
  | writeCallback => exact hother (by simp)
  | eventCallback connection =>
      have hclosed : Follows (s.closeConnection connection) :=
        h.shrinks (shrinks_closeConnection (h.ending connection hrunning))
      refine hswept (hclosed.settle ?_)
      intro c hending
      have hc : connection = c := by
        have heq : some (Trampoline.eventCallback connection) = some (.eventCallback c) :=
          hrunning.symm.trans hending
        cases heq
        rfl
      refine Bool.eq_false_iff.mpr fun hvalid => ?_
      exact (LinuxTcpServer.closeConnection_isValid.mp hvalid).1 hc.symm

theorem Follows.step {s t : TcpServerRun} {e : TcpServerEvent} (h : Follows s)
    (hstep : s.step e = some t) : Follows t := by
  obtain ⟨henabled, hnext⟩ := Option.ite_none_right_eq_some.mp hstep
  obtain rfl := Option.some.inj hnext
  have hold : ∀ {c}, c ∈ s.server.owned → c < s.nextId := fun hc => h.server.old _ hc
  have htouched : ∀ connection, Follows (s.note [.touched connection]) :=
    fun connection => h.shrinks (shrinks_touch s [connection])
  cases e with
  | accept peer opened => exact h.acceptCallback (Option.isNone_iff_eq_none.mp henabled) peer opened
  | readable connection =>
      obtain ⟨hidle, hvalid⟩ := Bool.and_eq_true_iff.mp henabled
      have hidle := Option.isNone_iff_eq_none.mp hidle
      simp only [next, readCallback]
      rw [if_pos (show (s.note _).server.isValid connection = true from hvalid)]
      exact (htouched connection).call hidle hvalid (Or.inl ⟨rfl, by simp⟩)
  | writable connection =>
      obtain ⟨hidle, hvalid⟩ := Bool.and_eq_true_iff.mp henabled
      have hidle := Option.isNone_iff_eq_none.mp hidle
      simp only [next, writeCallback]
      rw [if_pos (show (s.note _).server.isValid connection = true from hvalid)]
      exact (htouched connection).call hidle hvalid (Or.inl ⟨rfl, by simp⟩)
  | event connection timeout error eof errno =>
      obtain ⟨hidle, hvalid⟩ := Bool.and_eq_true_iff.mp henabled
      have hidle := Option.isNone_iff_eq_none.mp hidle
      have hends : ∀ callback : TcpServerCallback, callback.ends = true →
          Follows ((s.note [.touched connection]).call callback connection
            (.eventCallback connection)) :=
        fun callback hends => (htouched connection).call hidle hvalid (Or.inr ⟨hends, rfl⟩)
      simp only [next, eventCallback]
      split
      · exact hends _ rfl
      · split
        · exact hends _ rfl
        · split
          · exact hends _ rfl
          · exact (htouched connection).shrinks (shrinks_sweepClosed _)
  | closeConnection connection =>
      exact h.shrinks (shrinks_closeConnection (hold (of_decide_eq_true henabled)))
  | use connection => exact htouched connection
  | remove connection => exact h.shrinks (shrinks_remove (hold (of_decide_eq_true henabled)))
  | close => exact h.shrinks (shrinks_close s)
  | listen bound => exact h.shrinks (shrinks_listen s bound)
  | callbackReturns =>
      obtain ⟨trampoline, hrunning⟩ := Option.isSome_iff_exists.mp henabled
      simp only [next, hrunning, Option.getD_some]
      exact h.callbackReturns hrunning

theorem follows_listening (maxConnections : Nat) : Follows (listening maxConnections) where
  server := ⟨List.nodup_nil, List.forall_mem_nil _, List.forall_mem_nil _⟩
  count := Nat.zero_le _
  called _ _ hmem := by cases hmem
  rejected _ hmem := by cases hmem
  closed _ hmem := by cases hmem
  quiet := List.Pairwise.nil
  protocol _ hc _ := absurd hc (Nat.not_lt_zero _)
  valid _ hvalid _ := by cases hvalid
  ending _ hending := by cases hending

theorem step_maxConnections {s t : TcpServerRun} {e : TcpServerEvent} (hstep : s.step e = some t) :
    t.server.maxConnections = s.server.maxConnections := by
  obtain ⟨-, hnext⟩ := Option.ite_none_right_eq_some.mp hstep
  obtain rfl := Option.some.inj hnext
  cases e with
  | accept peer opened =>
      simp only [next, acceptCallback]
      split
      · rfl
      · split
        · rfl
        · split <;> rfl
  | readable connection =>
      simp only [next, readCallback]
      split <;> rfl
  | writable connection =>
      simp only [next, writeCallback]
      split <;> rfl
  | event connection timeout error eof errno =>
      simp only [next, eventCallback]
      split
      · rfl
      · split
        · rfl
        · split <;> rfl
  | callbackReturns =>
      simp only [next]
      cases s.running.getD .acceptCallback <;> rfl
  | closeConnection connection => rfl
  | use connection => rfl
  | remove connection => rfl
  | close => rfl
  | listen bound => rfl

/-- **Every connection's callbacks follow its life**: those of an accepted connection
are `on_accept`, then any mix of `on_data` and `on_write_ready`, then at most one
of `on_close` and `on_error`; none comes behind a `close()` of the connection; a
rejected one has none; and there are never more than `max_connections` valid. -/
theorem callbacks_follow_protocol {maxConnections : Nat} {events : List TcpServerEvent}
    {s : TcpServerRun} (hrun : run step (listening maxConnections) events = some s) :
    (∀ connection < s.nextId, .rejected connection ∉ s.log →
        FollowsProtocol (callbacksOf connection s.log))
      ∧ QuietAfterClose s.log
      ∧ (∀ connection, .rejected connection ∈ s.log → callbacksOf connection s.log = [])
      ∧ s.server.connectionCount ≤ maxConnections := by
  have hkept : ∀ s e t, Follows s ∧ s.server.maxConnections = maxConnections →
      step s e = some t → Follows t ∧ t.server.maxConnections = maxConnections := by
    rintro s e t ⟨h, hmax⟩ hstep
    exact ⟨h.step hstep, (step_maxConnections hstep).trans hmax⟩
  obtain ⟨h, hmax⟩ := run_invariant hkept ⟨follows_listening maxConnections, rfl⟩ hrun
  exact ⟨h.protocol, h.quiet, fun c hc => (h.rejected c hc).2.2, hmax ▸ h.count⟩

/-- There is room for two. The first is closed by the application while it has data,
the peer closes the second, and a third is turned away. -/
theorem callbacks_follow_protocol_run : ∃ s, run step (listening 2)
    [.accept {} true, .callbackReturns, .accept {} true, .callbackReturns, .accept {} true,
      .readable 0, .closeConnection 0, .callbackReturns, .writable 1, .callbackReturns,
      .event 1 false false true 0, .closeConnection 1, .callbackReturns] = some s
    ∧ FollowsProtocol (callbacksOf 1 s.log) ∧ callbacksOf 2 s.log = []
    ∧ callbacksOf 1 s.log = [.onAccept {}, .onWriteReady, .onClose] := by
  have hend : (run step (listening 2)
      [.accept {} true, .callbackReturns, .accept {} true, .callbackReturns, .accept {} true,
        .readable 0, .closeConnection 0, .callbackReturns, .writable 1, .callbackReturns,
        .event 1 false false true 0, .closeConnection 1, .callbackReturns]).map
      (fun s => (s.nextId, decide (.rejected 1 ∈ s.log), decide (.rejected 2 ∈ s.log),
        callbacksOf 1 s.log))
      = some (3, false, true, [.onAccept {}, .onWriteReady, .onClose]) := rfl
  obtain ⟨s, hrun, hs⟩ := Option.map_eq_some_iff.mp hend
  obtain ⟨hprotocol, -, hrejected, -⟩ := callbacks_follow_protocol hrun
  simp only [Prod.mk.injEq, decide_eq_false_iff_not, decide_eq_true_eq] at hs
  obtain ⟨hnext, hnot, hthird, hcallbacks⟩ := hs
  exact ⟨s, hrun, hprotocol 1 (by omega) hnot, hrejected 2 hthird, hcallbacks⟩

end TcpServerRun

end AsyncEventLoop
