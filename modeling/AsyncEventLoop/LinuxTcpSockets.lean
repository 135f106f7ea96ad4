import AsyncEventLoop.LinuxTcpClient

/-!
# The sockets of the Linux TCP client

Three fields of `LinuxTcpClient` name a file descriptor: that of the attempt
under way, that of the connection, and the one registered with libevent.
`SocketRun` is a client in use together with the sockets it has opened and
closed.

It never owns more than one, and closes the one it has before it opens the
next. The registration is another matter: a connection that the application
closes through its own `close()` leaves the client, which does not hear of it,
connected and registered. Otherwise the registered file descriptor is the one
the client owns whenever no call is under way.
-/

namespace AsyncEventLoop

open Runs

/-- A file descriptor that `socket` returned, or that was given to `::close`. -/
inductive SocketNote where
  | opened (fd : Nat)
  | closed (fd : Nat)
  deriving DecidableEq

/-- `::close` of a file descriptor, unless it is -1. -/
def closeFd (fd : Option Nat) : List SocketNote := fd.toList.map .closed

/-! ## What each function opens and closes, the newest first -/

namespace LinuxTcpClient

def closeSockets (c : LinuxTcpClient) : List SocketNote :=
  closeFd c.connectionFd ++ closeFd c.pendingFd

/-- `attach` closes what the connection was; where the event loop refuses the file
descriptor, the connection is closed again. -/
def activateSockets (c : LinuxTcpClient) (fd : Nat) (registerError : Option Int) :
    List SocketNote :=
  match registerError with
  | some _ => closeFd (some fd) ++ closeFd c.connectionFd
  | none => closeFd c.connectionFd

def trySockets (c : LinuxTcpClient) : List AddressTurn → List SocketNote
  | [] => []
  | ai :: rest =>
      match ai.socket with
      | .error _ => c.trySockets rest
      | .ok fd =>
          match ai.nonblockingError with
          | some _ => c.trySockets rest ++ [.closed fd, .opened fd]
          | none =>
              match ai.connectError with
              | none => c.activateSockets fd ai.registerError ++ [.opened fd]
              | some errno =>
                  if errno = EINPROGRESS ∨ errno = EALREADY ∨ errno = EWOULDBLOCK then
                    match ai.registerError with
                    | some _ => { c with pendingFd := some fd }.closeSockets ++ [.opened fd]
                    | none => [.opened fd]
                  else c.trySockets rest ++ [.closed fd, .opened fd]

def connectSockets (c : LinuxTcpClient) (call : ConnectCall) : List SocketNote :=
  match call.options.host, call.addresses with
  | some _, some addresses =>
      if call.options.port = 0 then c.closeSockets
      else c.close.trySockets addresses ++ c.closeSockets
  | _, _ => c.closeSockets

def pollSockets (c : LinuxTcpClient) (env : PollEnv) : List SocketNote :=
  match c.state, c.handler, c.pendingFd with
  | .connecting, some _, some fd =>
      if env.err ≠ 0 then []
      else { c.unregisterFd with pendingFd := none }.activateSockets fd env.registerError
  | _, _, _ => []

def finishSockets (c : LinuxTcpClient) : ClientFrame → List SocketNote
  | .closes _ => c.closeSockets
  | _ => []

end LinuxTcpClient

/-- The rest of a call that makes no callback. -/
def ClientTurn.sockets (turn : ClientTurn) : List SocketNote :=
  match turn.callback with
  | some _ => []
  | none => turn.client.finishSockets turn.rest

def ClientRun.stepSockets (s : ClientRun) : ClientEvent → List SocketNote
  | .connect call => (s.client.connect s.attempts call).sockets ++ s.client.connectSockets call
  | .close => s.client.closeSockets
  | .closeConnection => closeFd s.client.connectionFd
  | .poll env => (s.client.poll env).sockets ++ s.client.pollSockets env
  | .callbackReturns =>
      match s.frames with
      | [] => []
      | frame :: _ => s.client.finishSockets frame

/-- A client in use, and the sockets it opened and closed, the newest first. -/
structure SocketRun where
  clientRun : ClientRun := {}
  sockets : List SocketNote := []

def SocketRun.step (s : SocketRun) (e : ClientEvent) : Option SocketRun :=
  (s.clientRun.step e).map fun r => ⟨r, s.clientRun.stepSockets e ++ s.sockets⟩

/-! ## The property -/

/-- Sockets opened and closed one after the other: each but the last is closed once,
before the next is opened. `owned` is the last if it is open. -/
inductive OneByOne : (owned : Option Nat) → List SocketNote → Prop where
  | nil : OneByOne none []
  | opened {notes : List SocketNote} (fd : Nat) : OneByOne none notes →
      OneByOne (some fd) (.opened fd :: notes)
  | closed {notes : List SocketNote} (fd : Nat) : OneByOne (some fd) notes →
      OneByOne none (.closed fd :: notes)

namespace LinuxTcpClient

/-- The socket the client has to close. -/
def owned (c : LinuxTcpClient) : Option Nat := c.pendingFd.or c.connectionFd

/-- The registered file descriptor is that of the attempt or the connection, and a
connected client has a connection. -/
structure Registered (c : LinuxTcpClient) : Prop where
  fd : ∀ fd, c.registeredFd = some fd →
    (c.state = .connecting ∧ c.pendingFd = some fd)
      ∨ (c.state = .connected ∧ c.connectionFd = some fd)
  connected : c.state = .connected → c.connectionFd.isSome

/-- The file descriptors in each state. Only the connection of a connected client
may have been closed behind its back. -/
structure Descriptors (c : LinuxTcpClient) : Prop where
  idle : c.state = .idle →
    c.registeredFd = none ∧ c.pendingFd = none ∧ c.connectionFd = none
  connecting : c.state = .connecting →
    c.registeredFd = c.pendingFd ∧ c.pendingFd.isSome ∧ c.connectionFd = none
  connected : c.state = .connected →
    c.pendingFd = none ∧ (c.connectionFd = none ∨ c.registeredFd = c.connectionFd)

theorem Descriptors.of_idle {c : LinuxTcpClient} (hstate : c.state = .idle)
    (hfds : c.registeredFd = none ∧ c.pendingFd = none ∧ c.connectionFd = none) :
    c.Descriptors where
  idle _ := hfds
  connecting h := by rw [hstate] at h; cases h
  connected h := by rw [hstate] at h; cases h

theorem Descriptors.registered_iff {c : LinuxTcpClient} (h : c.Descriptors) :
    c.Registered ↔ (c.state = .connected → c.connectionFd.isSome) := by
  refine ⟨Registered.connected, fun hopen => ⟨?_, hopen⟩⟩
  intro fd hfd
  cases hstate : c.state with
  | idle =>
      rw [(h.idle hstate).1] at hfd
      cases hfd
  | connecting => exact Or.inl ⟨rfl, (h.connecting hstate).1 ▸ hfd⟩
  | connected =>
      rcases (h.connected hstate).2 with hnone | heq
      · have hsome := hopen hstate
        rw [hnone] at hsome
        cases hsome
      · exact Or.inr ⟨rfl, heq ▸ hfd⟩

end LinuxTcpClient

theorem OneByOne.close {owned : Option Nat} {notes : List SocketNote}
    (h : OneByOne owned notes) : OneByOne none (closeFd owned ++ notes) := by
  cases owned with
  | none => exact h
  | some fd => exact .closed fd h

namespace LinuxTcpClient

/-! ## One call -/

/-- From `c`, a part of a call that opens and closes `sockets`. -/
structure Handles (c : LinuxTcpClient) (sockets : List SocketNote) (c' : LinuxTcpClient) :
    Prop where
  descriptors : c'.Descriptors
  sockets : ∀ notes, OneByOne c.owned notes → OneByOne c'.owned (sockets ++ notes)

theorem Handles.trans {a b c : LinuxTcpClient} {sockets sockets' : List SocketNote}
    (h : Handles a sockets b) (h' : Handles b sockets' c) :
    Handles a (sockets' ++ sockets) c where
  descriptors := h'.descriptors
  sockets notes hnotes := by
    rw [List.append_assoc]
    exact h'.sockets _ (h.sockets notes hnotes)

theorem handles_refl {c : LinuxTcpClient} (h : c.Descriptors) : Handles c [] c :=
  ⟨h, fun _ hnotes => hnotes⟩

/-- Of the two descriptors only one can be open. -/
theorem Descriptors.closeSockets_eq {c : LinuxTcpClient} (h : c.Descriptors) :
    c.closeSockets = closeFd c.owned := by
  unfold closeSockets owned
  cases hstate : c.state with
  | idle =>
      obtain ⟨-, hpending, hconnection⟩ := h.idle hstate
      rw [hpending, hconnection]
      rfl
  | connecting =>
      obtain ⟨-, hsome, hconnection⟩ := h.connecting hstate
      obtain ⟨fd, hfd⟩ := Option.isSome_iff_exists.mp hsome
      rw [hfd, hconnection]
      rfl
  | connected =>
      rw [(h.connected hstate).1]
      exact List.append_nil _

theorem close_handles {c : LinuxTcpClient} (h : c.Descriptors) :
    Handles c c.closeSockets c.close where
  descriptors := .of_idle rfl ⟨rfl, rfl, rfl⟩
  sockets notes hnotes := by
    rw [h.closeSockets_eq]
    exact hnotes.close

theorem closeConnection_handles {c : LinuxTcpClient} (h : c.Descriptors) :
    Handles c (closeFd c.connectionFd) c.closeConnection where
  descriptors :=
    { idle := fun hstate => ⟨(h.idle hstate).1, (h.idle hstate).2.1, rfl⟩
      connecting := fun hstate => ⟨(h.connecting hstate).1, (h.connecting hstate).2.1, rfl⟩
      connected := fun hstate => ⟨(h.connected hstate).1, Or.inl rfl⟩ }
  sockets notes hnotes := by
    unfold owned at hnotes ⊢
    cases hconnection : c.connectionFd with
    | none =>
        rw [hconnection] at hnotes
        exact hnotes
    | some fd =>
        -- a client with a connection is connected
        have hpending : c.pendingFd = none := by
          cases hstate : c.state with
          | idle => exact (h.idle hstate).2.1
          | connecting =>
              rw [(h.connecting hstate).2.2] at hconnection
              cases hconnection
          | connected => exact (h.connected hstate).1
        have hnone : c.closeConnection.pendingFd.or c.closeConnection.connectionFd = none := by
          change c.pendingFd.or none = none
          rw [hpending]
          rfl
        rw [hpending, hconnection] at hnotes
        rw [hnone]
        exact hnotes.close

/-- A client without sockets takes one over. -/
theorem activate_handles {c : LinuxTcpClient} (hpending : c.pendingFd = none)
    (hconnection : c.connectionFd = none) (hregistered : c.registeredFd = none) (fd : Nat)
    (peer : TcpPeerInfo) (registerError : Option Int) (rest : Bool → ClientFrame)
    {notes : List SocketNote} (hnotes : OneByOne (some fd) notes) :
    (c.activateConnectedFd fd peer registerError rest).client.Descriptors
      ∧ OneByOne (c.activateConnectedFd fd peer registerError rest).client.owned
        (c.activateSockets fd registerError ++ notes) := by
  unfold activateConnectedFd activateSockets owned
  rw [hconnection]
  cases registerError with
  | some errno =>
      refine ⟨.of_idle rfl ⟨hregistered, hpending, rfl⟩, ?_⟩
      dsimp only
      rw [hpending]
      exact .closed fd hnotes
  | none =>
      refine ⟨⟨nofun, nofun, fun _ => ⟨hpending, Or.inr rfl⟩⟩, ?_⟩
      dsimp only
      rw [hpending]
      exact hnotes

theorem tryAddresses_handles {c : LinuxTcpClient} (hstate : c.state = .idle)
    (hpending : c.pendingFd = none) (hconnection : c.connectionFd = none)
    (hregistered : c.registeredFd = none) (a : Attempt) (host : String) (port : UInt16)
    (lastError : Int) (addresses : List AddressTurn) :
    Handles c (c.trySockets addresses) (c.tryAddresses a host port lastError addresses).client := by
  have howned : c.owned = none := by
    rw [owned, hpending, hconnection]
    rfl
  -- an address that comes to nothing
  have hfailed : ∀ {fd : Nat} {sockets : List SocketNote} {c' : LinuxTcpClient},
      Handles c sockets c' → Handles c (sockets ++ [.closed fd, .opened fd]) c' := by
    intro fd sockets c' h
    refine ⟨h.descriptors, fun notes hnotes => ?_⟩
    rw [List.append_assoc]
    refine h.sockets _ ?_
    rw [howned] at hnotes ⊢
    exact .closed fd (.opened fd hnotes)
  induction addresses generalizing lastError with
  | nil => exact handles_refl (.of_idle hstate ⟨hregistered, hpending, hconnection⟩)
  | cons ai rest ih =>
      unfold tryAddresses trySockets
      cases ai.socket with
      | error errno => exact ih errno
      | ok fd =>
          dsimp only
          cases ai.nonblockingError with
          | some errno => exact hfailed (ih _)
          | none =>
              dsimp only
              cases ai.connectError with
              | none =>
                  dsimp only
                  have hactivate : ∀ notes, OneByOne none notes → _ := fun notes hnotes =>
                    activate_handles (c := { c with handler := some a.handler, attempt := a })
                      hpending hconnection hregistered fd (fillPeer ai.sin host port)
                      ai.registerError (.returns a) (.opened fd hnotes)
                  refine ⟨(hactivate [] .nil).1, fun notes hnotes => ?_⟩
                  rw [List.append_assoc]
                  exact (hactivate notes (howned ▸ hnotes)).2
              | some errno =>
                  dsimp only
                  split
                  · cases ai.registerError with
                    | some errno =>
                        refine ⟨.of_idle rfl ⟨rfl, rfl, rfl⟩, fun notes hnotes => ?_⟩
                        rw [howned] at hnotes
                        unfold closeSockets
                        rw [hconnection]
                        exact .closed fd (.opened fd hnotes)
                    | none =>
                        refine ⟨⟨by simp, fun _ => ⟨rfl, rfl, hconnection⟩, by simp⟩,
                          fun notes hnotes => ?_⟩
                        rw [howned] at hnotes
                        exact .opened fd hnotes
                  · exact hfailed (ih _)

theorem connect_handles {c : LinuxTcpClient} (h : c.Descriptors) (number : Nat)
    (call : ConnectCall) :
    Handles c (c.connectSockets call) (c.connect number call).client := by
  have hclosed := close_handles h
  unfold connect connectSockets
  cases call.options.host with
  | none => exact hclosed
  | some host =>
      cases call.addresses with
      | none =>
          dsimp only
          split <;> exact hclosed
      | some addresses =>
          dsimp only
          split
          · exact hclosed
          · exact hclosed.trans (tryAddresses_handles rfl rfl rfl rfl ..)

/-- The part of a `poll` up to its callback. -/
theorem poll_handles {c : LinuxTcpClient} (h : c.Descriptors) (env : PollEnv) :
    Handles c (c.pollSockets env) (c.poll env).client := by
  unfold poll pollSockets
  cases hstate : c.state with
  | idle => exact handles_refl h
  | connected =>
      dsimp only
      split
      · split
        · exact handles_refl h
        · exact handles_refl h
        · split <;> exact handles_refl h
      · exact handles_refl h
  | connecting =>
      obtain ⟨-, hsome, hconnection⟩ := h.connecting hstate
      obtain ⟨fd, hfd⟩ := Option.isSome_iff_exists.mp hsome
      dsimp only
      unfold completeConnect
      rw [hfd]
      cases c.handler with
      | none => exact handles_refl h
      | some handler =>
          dsimp only
          split
          · exact handles_refl h
          · have howned : c.owned = some fd := by
              rw [owned, hfd]
              rfl
            have hactivate : ∀ notes, OneByOne (some fd) notes → _ := fun notes hnotes =>
              activate_handles (c := { c.unregisterFd with pendingFd := none }) rfl hconnection rfl
                fd c.pendingPeer env.registerError (fun _ => .done) hnotes
            exact ⟨(hactivate _ (.opened fd .nil)).1,
              fun notes hnotes => (hactivate notes (howned ▸ hnotes)).2⟩

end LinuxTcpClient

namespace ClientRun

theorem finish_handles {s : ClientRun} (h : s.client.Descriptors) (frame : ClientFrame) :
    s.client.Handles (s.client.finishSockets frame) (s.finish frame).client := by
  cases frame with
  | returns a ok => exact LinuxTcpClient.handles_refl h
  | done => exact LinuxTcpClient.handles_refl h
  | closes a => exact LinuxTcpClient.close_handles h

/-- A call that has got to its callback, or to its end. -/
theorem perform_handles {s : ClientRun} {c : LinuxTcpClient} {sockets : List SocketNote}
    {turn : ClientTurn} (h : c.Handles sockets turn.client) :
    c.Handles (turn.sockets ++ sockets) (s.perform turn).client := by
  unfold ClientTurn.sockets perform
  cases turn.callback with
  | some call => exact h
  | none =>
      have hfinish := finish_handles (s := { s with client := turn.client }) h.descriptors turn.rest
      exact h.trans hfinish

/-! ## A lost connection -/

/-- The client has made every callback about an attempt it was given, and if it told
that what it holds is lost, it is about to close it. -/
structure Told (s : ClientRun) : Prop where
  sound : s.client.Sound
  held : ∀ a, s.client.held = some a → a.number < s.attempts
  calls : ∀ a callback, .called a callback ∈ s.log → a.number < s.attempts
  lost : ∀ a, ToldLost s.log a → s.client.held = some a → .closes a ∈ s.frames

/-- A callback does not tell of another attempt, and only some tell of a loss. -/
theorem toldLost_append {log : List ClientNote} {a b : Attempt} {callback : ClientCallback}
    (h : ToldLost (log ++ [.called a callback]) b) :
    ToldLost log b
      ∨ (b = a ∧ (callback = .onClose ∨ ∃ errorCode, callback = .onError errorCode)) := by
  rcases h with hclose | ⟨errorCode, herror⟩
  · rcases List.mem_append.mp hclose with hold | hnew
    · exact Or.inl (Or.inl hold)
    · obtain ⟨rfl, rfl⟩ := ClientNote.called.inj (List.mem_singleton.mp hnew)
      exact Or.inr ⟨rfl, Or.inl rfl⟩
  · rcases List.mem_append.mp herror with hold | hnew
    · exact Or.inl (Or.inr ⟨errorCode, hold⟩)
    · obtain ⟨rfl, rfl⟩ := ClientNote.called.inj (List.mem_singleton.mp hnew)
      exact Or.inr ⟨rfl, Or.inr ⟨errorCode, rfl⟩⟩

theorem toldLost_of_append {log notes : List ClientNote} {a : Attempt}
    (hnotes : ∀ b callback, .called b callback ∉ notes) (h : ToldLost (log ++ notes) a) :
    ToldLost log a := by
  rcases h with hclose | ⟨errorCode, herror⟩
  · exact Or.inl ((List.mem_append.mp hclose).resolve_right (hnotes a _))
  · exact Or.inr ⟨errorCode, (List.mem_append.mp herror).resolve_right (hnotes a _)⟩

/-- The client is closed. -/
theorem Told.release {s : ClientRun} (h : Told s) (frames : List ClientFrame)
    {notes : List ClientNote} (hnotes : ∀ a callback, .called a callback ∉ notes) :
    Told { s with client := s.client.close, frames := frames, log := s.log ++ notes } where
  sound := .of_idle rfl
  held a ha := by cases ha
  calls a callback hmem := h.calls a callback ((List.mem_append.mp hmem).resolve_right (hnotes a _))
  lost a _ ha := by cases ha

theorem held_notes {c : LinuxTcpClient} {note : Attempt → ClientNote}
    (hnote : ∀ a b callback, note a ≠ .called b callback) (a : Attempt)
    (callback : ClientCallback) :
    .called a callback ∉ c.held.toList.map note := by
  intro hmem
  obtain ⟨b, -, hb⟩ := mem_held_map.mp hmem
  exact hnote b a callback hb.symm

/-- A callback about the attempt `a`, which leaves the client in the state `c`. -/
theorem Told.push {s : ClientRun} (h : Told s) {c : LinuxTcpClient} {n : Nat} {a : Attempt}
    {callback : ClientCallback} (frame : ClientFrame) (hn : s.attempts ≤ n) (ha : a.number < n)
    (hsound : c.Sound) (hheld : ∀ b, c.held = some b → b = a)
    (hlost : c.held = some a → ToldLost (s.log ++ [.called a callback]) a →
      .closes a ∈ frame :: s.frames) :
    Told { s with
      client := c, attempts := n, frames := frame :: s.frames
      log := s.log ++ [.called a callback] } where
  sound := hsound
  held b hb := hheld b hb ▸ ha
  calls b callback' hmem := by
    rcases List.mem_append.mp hmem with hold | hnew
    · exact Nat.lt_of_lt_of_le (h.calls b callback' hold) hn
    · obtain ⟨rfl, -⟩ := ClientNote.called.inj (List.mem_singleton.mp hnew)
      exact ha
  lost b htold hb := by
    obtain rfl := hheld b hb
    exact hlost hb htold

/-- Nothing has been told of an attempt that is still to be made. -/
theorem Told.not_new {s : ClientRun} (h : Told s) {a : Attempt} (ha : s.attempts ≤ a.number) :
    ¬ ToldLost s.log a := by
  rintro (hclose | ⟨errorCode, herror⟩)
  · exact absurd (h.calls a _ hclose) (Nat.not_lt.mpr ha)
  · exact absurd (h.calls a _ herror) (Nat.not_lt.mpr ha)

theorem Told.connects {s : ClientRun} (h : Told s) {a : Attempt} (ha : a.number = s.attempts)
    {turn : ClientTurn} (hturn : LinuxTcpClient.ConnectTurn a turn) :
    Told ({ s with attempts := s.attempts + 1 }.perform turn) := by
  have hlt : a.number < s.attempts + 1 := by omega
  have hnew := h.not_new (Nat.le_of_eq ha.symm)
  cases hturn with
  | refused c errorCode hidle =>
      have hnone := LinuxTcpClient.held_of_idle hidle
      refine h.push _ (Nat.le_succ _) hlt (.of_idle hidle) ?_ ?_
      · intro b hb
        rw [hnone] at hb
        cases hb
      · intro hb
        rw [hnone] at hb
        cases hb
  | connected c peer hsound hstate hattempt =>
      refine h.push _ (Nat.le_succ _) hlt hsound ?_ ?_
      · intro b hb
        exact (LinuxTcpClient.held_eq_some.mp hb).2.symm.trans hattempt
      · intro _ htold
        rcases toldLost_append htold with hold | ⟨-, hclose | ⟨errorCode, herror⟩⟩
        · exact absurd hold hnew
        · cases hclose
        · cases herror
  | pending c hsound hstate hattempt =>
      have hheld : ∀ b, c.held = some b → b = a :=
        fun b hb => (LinuxTcpClient.held_eq_some.mp hb).2.symm.trans hattempt
      have hnotes : ∀ b callback, .called b callback ∉ [ClientNote.returned a true] := by simp
      refine ⟨hsound, fun b hb => hheld b hb ▸ hlt, ?_, ?_⟩
      · intro b callback hmem
        have hold := (List.mem_append.mp hmem).resolve_right (hnotes b callback)
        exact Nat.lt_succ_of_lt (h.calls b callback hold)
      · intro b htold hb
        obtain rfl := hheld b hb
        exact absurd (toldLost_of_append hnotes htold) hnew

theorem Told.polls {s : ClientRun} (h : Told s) {turn : ClientTurn}
    (hturn : LinuxTcpClient.PollTurn s.client turn) : Told (s.perform turn) := by
  -- what the client holds is what the callback is about
  have hpush : ∀ {c : LinuxTcpClient} {callback : ClientCallback} {frame : ClientFrame},
      s.client.state ≠ .idle → c.Sound → (c.state ≠ .idle → c.attempt = s.client.attempt) →
      (c.state ≠ .idle →
        (callback = .onClose ∨ ∃ errorCode, callback = .onError errorCode) →
          frame = .closes s.client.attempt) →
      Told { s with
        client := c, frames := frame :: s.frames
        log := s.log ++ [.called s.client.attempt callback] } := by
    intro c callback frame hbusy hsound hattempt hframe
    have hheld := LinuxTcpClient.held_of_busy hbusy
    refine h.push frame (Nat.le_refl _) (h.held _ hheld) hsound ?_ ?_
    · intro b hb
      obtain ⟨hstate, rfl⟩ := LinuxTcpClient.held_eq_some.mp hb
      exact hattempt hstate
    · intro hb htold
      have hstate := (LinuxTcpClient.held_eq_some.mp hb).1
      rcases toldLost_append htold with hold | ⟨-, hcallback⟩
      · exact List.mem_cons_of_mem _ (h.lost _ hold hheld)
      · rw [hframe hstate hcallback]
        exact List.mem_cons_self ..
  cases hturn with
  | ignored => exact h
  | data hstate =>
      refine hpush (by simp [hstate]) h.sound (fun _ => rfl) ?_
      rintro - (hclose | ⟨errorCode, herror⟩)
      · cases hclose
      · cases herror
  | lost hstate => exact hpush (by simp [hstate]) h.sound (fun _ => rfl) fun _ _ => rfl
  | failed errorCode hbusy => exact hpush hbusy h.sound (fun _ => rfl) fun _ _ => rfl
  | connected c peer hstate hsound hconnected hattempt =>
      refine hpush (by simp [hstate]) hsound (fun _ => hattempt) ?_
      rintro - (hclose | ⟨errorCode, herror⟩)
      · cases hclose
      · cases herror
  | refused c errorCode hstate hidle hattempt =>
      exact hpush (by simp [hstate]) (.of_idle hidle) (fun _ => hattempt)
        fun hbusy => absurd hidle hbusy

/-- A callback has returned, and the rest of its call runs. -/
theorem Told.finish {s : ClientRun} (h : Told s) {frame : ClientFrame} {frames : List ClientFrame}
    (hframes : s.frames = frame :: frames) : Told ({ s with frames := frames }.finish frame) := by
  -- the loss of what is held is left to another frame
  have hrest : ∀ a, (∀ b, frame ≠ .closes b) → ToldLost s.log a → s.client.held = some a →
      .closes a ∈ frames := by
    intro a hframe htold ha
    have hmem := h.lost a htold ha
    rw [hframes] at hmem
    exact (List.mem_cons.mp hmem).resolve_left (Ne.symm (hframe a))
  cases frame with
  | done => exact ⟨h.sound, h.held, h.calls, fun a => hrest a fun b => ClientFrame.noConfusion⟩
  | returns a ok =>
      have hnotes : ∀ b callback, .called b callback ∉ [ClientNote.returned a ok] := by simp
      refine ⟨h.sound, h.held, ?_, ?_⟩
      · intro b callback hmem
        exact h.calls b callback ((List.mem_append.mp hmem).resolve_right (hnotes b callback))
      · intro b htold hb
        exact hrest b (fun _ => by simp) (toldLost_of_append hnotes htold) hb
  | closes a => exact h.release frames (held_notes fun _ _ _ => ClientNote.noConfusion)

theorem step_told {s s' : ClientRun} {e : ClientEvent} (h : Told s)
    (hstep : step s e = some s') : Told s' := by
  have hdrop : Told s.drop := h.release s.frames (held_notes fun _ _ _ => ClientNote.noConfusion)
  cases e with
  | connect call =>
      obtain rfl := Option.some.inj hstep
      exact hdrop.connects rfl (LinuxTcpClient.connect_turn _ _ _)
  | close =>
      obtain rfl := Option.some.inj hstep
      exact hdrop
  | closeConnection =>
      obtain rfl := Option.some.inj hstep
      exact ⟨⟨h.sound.handler, h.sound.pending⟩, h.held, h.calls, h.lost⟩
  | poll env =>
      obtain rfl := Option.some.inj hstep
      exact h.polls (LinuxTcpClient.poll_turn h.sound env)
  | callbackReturns =>
      simp only [step] at hstep
      split at hstep
      · cases hstep
      · rename_i frame frames hframes
        obtain rfl := Option.some.inj hstep
        exact h.finish hframes

theorem told_fresh : Told {} where
  sound := .of_idle rfl
  held a ha := by cases ha
  calls := by simp
  lost a _ ha := by cases ha

end ClientRun

/-! ## Runs -/

namespace ClientRun

/-- The application does not close the connection of a connected client and leave it
at that: neither outside callbacks, nor up to the return of the last callback
under way, unless the client closes itself then. -/
def closesThroughClient (s : ClientRun) : ClientEvent → Bool
  | .closeConnection => !s.frames.isEmpty || s.client.state ≠ .connected
  | .callbackReturns =>
      match s.frames with
      | [.closes _] => true
      | [_] => s.client.state ≠ .connected || s.client.connectionFd.isSome
      | _ => true
  | _ => true

end ClientRun

namespace SocketRun

/-- What holds in every state of a run. -/
structure Owns (s : SocketRun) : Prop where
  descriptors : s.clientRun.client.Descriptors
  sockets : OneByOne s.clientRun.client.owned s.sockets
  told : s.clientRun.Told

/-- Between two calls the registration matches. -/
def Matches (s : SocketRun) : Prop := s.clientRun.frames = [] → s.clientRun.client.Registered

theorem owns_fresh : Owns {} where
  descriptors := .of_idle rfl ⟨rfl, rfl, rfl⟩
  sockets := .nil
  told := ClientRun.told_fresh

theorem step_handles {s s' : ClientRun} {e : ClientEvent} (h : s.client.Descriptors)
    (hstep : s.step e = some s') : s.client.Handles (s.stepSockets e) s'.client := by
  cases e with
  | connect call =>
      obtain rfl := Option.some.inj hstep
      exact ClientRun.perform_handles (LinuxTcpClient.connect_handles h s.attempts call)
  | close =>
      obtain rfl := Option.some.inj hstep
      exact LinuxTcpClient.close_handles h
  | closeConnection =>
      obtain rfl := Option.some.inj hstep
      exact LinuxTcpClient.closeConnection_handles h
  | poll env =>
      obtain rfl := Option.some.inj hstep
      exact ClientRun.perform_handles (LinuxTcpClient.poll_handles h env)
  | callbackReturns =>
      simp only [ClientRun.step] at hstep
      split at hstep
      · cases hstep
      · rename_i frame frames hframes
        obtain rfl := Option.some.inj hstep
        simp only [ClientRun.stepSockets, hframes]
        exact ClientRun.finish_handles (s := { s with frames := frames }) h frame

/-- **The step lemma.** -/
theorem step_owns {s s' : SocketRun} {e : ClientEvent} (h : Owns s) (hstep : s.step e = some s') :
    Owns s' := by
  obtain ⟨clientRun', hrun, rfl⟩ := Option.map_eq_some_iff.mp hstep
  have hhandles := step_handles h.descriptors hrun
  exact ⟨hhandles.descriptors, hhandles.sockets _ h.sockets, ClientRun.step_told h.told hrun⟩

/-- A registration that matches comes to differ exactly where the connection is closed
behind the client's back. -/
theorem step_matches {s s' : SocketRun} {e : ClientEvent} (h : Owns s) (hmatches : Matches s)
    (hstep : s.step e = some s') : s.clientRun.closesThroughClient e = true ↔ Matches s' := by
  have hregistered := (step_owns h hstep).descriptors.registered_iff
  obtain ⟨clientRun', hrun, rfl⟩ := Option.map_eq_some_iff.mp hstep
  unfold Matches
  rw [hregistered]
  cases e with
  | connect call =>
      obtain rfl := Option.some.inj hrun
      refine iff_of_true rfl ?_
      have hturn := LinuxTcpClient.connect_turn s.clientRun.client s.clientRun.attempts call
      generalize s.clientRun.client.connect s.clientRun.attempts call = turn at hturn
      cases hturn with
      | refused => exact fun hrest => by cases hrest
      | connected => exact fun hrest => by cases hrest
      | pending c _ hstate =>
          intro _ hconnected
          rw [show c.state = .connected from hconnected] at hstate
          cases hstate
  | close =>
      obtain rfl := Option.some.inj hrun
      exact iff_of_true rfl fun _ hconnected => by cases hconnected
  | closeConnection =>
      obtain rfl := Option.some.inj hrun
      simp [ClientRun.closesThroughClient, LinuxTcpClient.closeConnection, imp_iff_not_or]
  | poll env =>
      obtain rfl := Option.some.inj hrun
      refine iff_of_true rfl ?_
      have hturn := LinuxTcpClient.poll_turn h.told.sound env
      generalize s.clientRun.client.poll env = turn at hturn
      cases hturn with
      | ignored => exact fun hrest => (hmatches hrest).connected
      | data => exact fun hrest => by cases hrest
      | lost => exact fun hrest => by cases hrest
      | failed => exact fun hrest => by cases hrest
      | connected => exact fun hrest => by cases hrest
      | refused => exact fun hrest => by cases hrest
  | callbackReturns =>
      simp only [ClientRun.step] at hrun
      split at hrun
      · cases hrun
      · rename_i frame frames hframes
        obtain rfl := Option.some.inj hrun
        unfold ClientRun.closesThroughClient
        rw [hframes]
        cases frames with
        | cons other rest =>
            refine iff_of_true (by cases frame <;> rfl) fun hrest => ?_
            cases frame <;> cases hrest
        | nil =>
            cases frame with
            | closes a => exact iff_of_true rfl fun _ hconnected => by cases hconnected
            | returns a ok => simp [ClientRun.finish, imp_iff_not_or]
            | done => simp [ClientRun.finish, imp_iff_not_or]

/-- In every state of a run the client owns one socket at most, and has closed the
others once each; and between two calls it does not hold what it told to be
lost. The registration is that of its socket between any two calls of the run
exactly if the application closes the connection of a connected client through
the client only. -/
theorem registration_matches_iff {s : SocketRun} {es : List ClientEvent}
    (hrun : run step {} es = some s) :
    OneByOne s.clientRun.client.owned s.sockets
      ∧ (s.clientRun.frames = [] → ∀ a, ClientRun.ToldLost s.clientRun.log a →
        s.clientRun.client.held ≠ some a)
      ∧ ((∀ fs gs t, es = fs ++ gs → run step {} fs = some t → Matches t)
        ↔ run (restrict (fun s => s.clientRun.closesThroughClient) step) {} es = some s) := by
  have howns := run_invariant (fun _ _ _ => step_owns) owns_fresh hrun
  refine ⟨howns.sockets, ?_, ?_⟩
  · intro hrest a htold hheld
    have hmem := howns.told.lost a htold hheld
    rw [hrest] at hmem
    cases hmem
  · refine run_always_iff (fun _ _ _ => step_owns) (fun _ _ _ => step_matches) owns_fresh ?_ hrun
    intro _
    rw [owns_fresh.descriptors.registered_iff]
    exact fun hconnected => by cases hconnected

/-- A connection is made, closed by its handler in `on_data` through the client, and
another one is lost. -/
theorem registration_matches_iff_run :
    ∃ s : SocketRun,
      run step {} [.connect (ClientRun.pendingCall 3), .poll {}, .callbackReturns,
          .poll { recv := .data }, .close, .callbackReturns, .connect (ClientRun.pendingCall 3),
          .poll {}, .callbackReturns, .poll { recv := .eof }, .callbackReturns] = some s
        ∧ OneByOne s.clientRun.client.owned s.sockets ∧ Matches s := by
  have hend : (run step {} [.connect (ClientRun.pendingCall 3), .poll {}, .callbackReturns,
      .poll { recv := .data }, .close, .callbackReturns, .connect (ClientRun.pendingCall 3),
      .poll {}, .callbackReturns, .poll { recv := .eof }, .callbackReturns]).isSome = true := rfl
  obtain ⟨s, hrun⟩ := Option.isSome_iff_exists.mp hend
  obtain ⟨hsockets, -, hiff⟩ := registration_matches_iff hrun
  exact ⟨s, hrun, hsockets, hiff.mpr hrun _ [] s (List.append_nil _).symm hrun⟩

/-- The handler closes the connection it is given in `on_connect`: the client stays
connected, and registered for a file descriptor that is closed. -/
theorem closed_behind_the_client :
    ∃ s : SocketRun,
      run step {} [.connect (ClientRun.pendingCall 3), .poll {}, .closeConnection,
          .callbackReturns] = some s
        ∧ s.clientRun.frames = [] ∧ s.clientRun.client.state = .connected
        ∧ s.clientRun.client.registeredFd = some 3 ∧ s.sockets = [.closed 3, .opened 3]
        ∧ ¬ Matches s := by
  have hend : (run step {} [.connect (ClientRun.pendingCall 3), .poll {}, .closeConnection,
      .callbackReturns]).map (fun s => (s.clientRun.frames.length, s.clientRun.client.state,
        s.clientRun.client.registeredFd, s.clientRun.client.connectionFd, s.sockets))
      = some (0, .connected, some 3, none, [.closed 3, .opened 3]) := rfl
  obtain ⟨s, hrun, hs⟩ := Option.map_eq_some_iff.mp hend
  obtain ⟨hframes, hs⟩ := Prod.mk.inj hs
  obtain ⟨hstate, hs⟩ := Prod.mk.inj hs
  obtain ⟨hregistered, hs⟩ := Prod.mk.inj hs
  obtain ⟨hconnection, hsockets⟩ := Prod.mk.inj hs
  have hrest := List.eq_nil_of_length_eq_zero hframes
  refine ⟨s, hrun, hrest, hstate, hregistered, hsockets, ?_⟩
  intro hmatches
  have hopen := (hmatches hrest).connected hstate
  rw [hconnection] at hopen
  cases hopen

end SocketRun

end AsyncEventLoop
