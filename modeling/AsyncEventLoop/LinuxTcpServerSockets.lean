import AsyncEventLoop.LinuxTcpShutdown
import AsyncEventLoop.ResourceLedger

/-!
# The sockets of the Linux TCP server

libevent hands every socket that comes in over to `accept_callback`, and there are three
ways to close it: by `evutil_closesocket` where no connection is made of it, or fails to be
made; with its bufferevent, when the connection is closed; and with its bufferevent in the
destructor, when the server is closed or swept. `TcpServerSockets` is a server in use with
the ledger of its sockets.

Each socket is closed once, and open as long as its connection is valid, in runs in which
no callback that ends a connection returns after that connection was destroyed: `close` of
the destroyed one is what nothing is said about.
-/

namespace AsyncEventLoop

open Runs ResourceLedger

namespace TcpServerRun

/-! ## What each function does to the sockets, the newest first -/

/-- `close_bev`; the bufferevent closes its socket when it is freed. -/
def closeBevSockets (k : LinuxTcpConnection) : List (Entry Nat) :=
  if k.bev then [.released k.id] else []

/-- The destructors of what the sweep erases. -/
def sweepSockets (s : TcpServerRun) : List (Entry Nat) :=
  (s.server.connections.filter LinuxTcpConnection.removeRequested).reverse.flatMap
    closeBevSockets

def closeConnectionSockets (s : TcpServerRun) (connection : Nat) : List (Entry Nat) :=
  if s.server.isValid connection then [.released connection] else []

/-- The destructors of all connections. -/
def closeSockets (s : TcpServerRun) : List (Entry Nat) :=
  s.server.connections.reverse.flatMap closeBevSockets

def removeSockets (s : TcpServerRun) (connection : Nat) : List (Entry Nat) :=
  (s.closeConnection connection).sweepSockets ++ s.closeConnectionSockets connection

/-- A bufferevent that cannot be made leaves the socket to the constructor. -/
def acceptSockets (s : TcpServerRun) (opened : Bool) : List (Entry Nat) :=
  let connection := s.nextId
  if !s.server.handler then [.released connection, .acquired connection]
  else
    let swept := s.sweepSockets ++ [.acquired connection]
    if s.sweepClosed.server.connectionCount ≥ s.server.maxConnections then
      .released connection :: swept
    else if !opened then .released connection :: swept
    else swept

/-- libevent has used the socket before it makes a callback about it. -/
def stepSockets (s : TcpServerRun) : TcpServerEvent → List (Entry Nat)
  | .accept _ opened => s.acceptSockets opened
  | .readable connection =>
      (if s.server.isValid connection then [] else s.sweepSockets) ++ [.used connection]
  | .writable connection =>
      (if s.server.isValid connection then [] else s.sweepSockets) ++ [.used connection]
  | .event connection timeout error eof _ =>
      (if timeout || error || eof then [] else s.sweepSockets) ++ [.used connection]
  | .closeConnection connection => s.closeConnectionSockets connection
  | .use _ => []
  | .remove connection => s.removeSockets connection
  | .close => s.closeSockets
  | .listen _ => s.closeSockets
  | .callbackReturns =>
      match s.running with
      | some (.eventCallback connection) => s.removeSockets connection
      | _ => s.sweepSockets

end TcpServerRun

/-- A server in use, and what became of its sockets, the newest first. -/
structure TcpServerSockets where
  serverRun : TcpServerRun
  sockets : List (Entry Nat) := []

namespace TcpServerSockets

def listening (maxConnections : Nat) : TcpServerSockets :=
  { serverRun := .listening maxConnections }

def step (s : TcpServerSockets) (e : TcpServerEvent) : Option TcpServerSockets :=
  (s.serverRun.step e).map fun r => ⟨r, s.serverRun.stepSockets e ++ s.sockets⟩

/-- No callback that ends a connection returns after the connection was destroyed. -/
def returnsAlive (s : TcpServerSockets) (e : TcpServerEvent) : Bool := s.serverRun.returnsAlive e

/-! ## What is open -/

/-- The socket of a connection, as long as it has its bufferevent. -/
def socketOf (connections : List LinuxTcpConnection) (c : Nat) : Option Nat :=
  if connections.any fun k => k.id = c && k.bev then some c else none

theorem socketOf_eq_some {connections : List LinuxTcpConnection} {c d : Nat} :
    socketOf connections c = some d ↔ d = c ∧ ∃ k ∈ connections, k.id = c ∧ k.bev = true := by
  unfold socketOf
  split
  · rename_i hany
    simp only [List.any_eq_true, Bool.and_eq_true, decide_eq_true_eq] at hany
    rw [Option.some_inj, eq_comm]
    exact ⟨fun h => ⟨h, hany⟩, And.left⟩
  · rename_i hnone
    simp only [List.any_eq_true, Bool.and_eq_true, decide_eq_true_eq] at hnone
    constructor
    · intro h
      cases h
    · rintro ⟨-, hany⟩
      exact absurd hany hnone

theorem socketOf_server {s : LinuxTcpServer} {c d : Nat} :
    socketOf s.connections c = some d ↔ d = c ∧ s.isValid c = true := by
  rw [socketOf_eq_some, LinuxTcpServer.isValid_iff]

/-- The sockets depend on which connections are valid only. -/
theorem socketOf_congr {s t : LinuxTcpServer} (h : ∀ c, s.isValid c = true ↔ t.isValid c = true) :
    socketOf s.connections = socketOf t.connections := by
  funext c
  have hiff : ∀ d, socketOf s.connections c = some d ↔ socketOf t.connections c = some d :=
    fun d => by rw [socketOf_server, socketOf_server, h]
  exact Option.ext hiff

variable {log : List (Entry Nat)}

/-- The connections are destroyed, one after the other. -/
theorem books_destroy {connections : List LinuxTcpConnection}
    (hids : (connections.map LinuxTcpConnection.id).Nodup)
    (h : Books log (socketOf connections)) :
    Books (connections.reverse.flatMap TcpServerRun.closeBevSockets ++ log)
      (fun _ : Nat => none) := by
  induction connections generalizing log with
  | nil => exact h
  | cons k rest ih =>
      obtain ⟨hk, hrest⟩ := List.nodup_cons.mp hids
      have hothers (c : Nat) (hc : c ≠ k.id) : socketOf (k :: rest) c = socketOf rest c := by
        simp [socketOf, Ne.symm hc]
      have hgone : socketOf rest k.id = none := by
        refine Option.eq_none_iff_forall_ne_some.mpr fun d hd => ?_
        obtain ⟨-, j, hj, hid, -⟩ := socketOf_eq_some.mp hd
        exact hk (List.mem_map.mpr ⟨j, hj, hid⟩)
      rw [List.reverse_cons, List.flatMap_append, List.flatMap_singleton, List.append_assoc]
      refine ih hrest ?_
      unfold TcpServerRun.closeBevSockets
      split
      · rename_i hbev
        have hopen : socketOf (k :: rest) k.id = some k.id :=
          socketOf_eq_some.mpr ⟨rfl, k, List.mem_cons_self, rfl, hbev⟩
        have hreleased := h.release hopen
        have hcells : Function.update (socketOf (k :: rest)) k.id none = socketOf rest := by
          funext c
          by_cases hc : c = k.id
          · rw [hc, Function.update_self, hgone]
          · rw [Function.update_of_ne hc, hothers c hc]
        rwa [hcells] at hreleased
      · rename_i hbev
        have hcells : socketOf (k :: rest) = socketOf rest := by
          funext c
          by_cases hc : c = k.id
          · rw [hc, hgone]
            refine Option.eq_none_iff_forall_ne_some.mpr fun d hd => ?_
            obtain ⟨-, j, hj, hid, hopen⟩ := socketOf_eq_some.mp hd
            rcases List.mem_cons.mp hj with rfl | hj
            · exact hbev hopen
            · exact hk (List.mem_map.mpr ⟨j, hj, hid⟩)
          · exact hothers c hc
        rw [← hcells]
        exact h

/-- What is swept was closed before. -/
theorem sweepSockets_nil {s : TcpServerRun} (h : s.server.WellFormed s.nextId) :
    s.sweepSockets = [] := by
  refine List.flatMap_eq_nil_iff.mpr fun k hk => ?_
  obtain ⟨hmem, hmarked⟩ := List.mem_filter.mp (List.mem_reverse.mp hk)
  rw [h.marked k hmem] at hmarked
  unfold TcpServerRun.closeBevSockets
  rw [if_neg (by simpa using hmarked)]

theorem sweepClosed_sockets {s : TcpServerRun} (h : s.server.WellFormed s.nextId) :
    socketOf s.sweepClosed.server.connections = socketOf s.server.connections :=
  socketOf_congr fun _ => h.sweepClosed_isValid

theorem books_closeConnection {s : TcpServerRun}
    (h : Books log (socketOf s.server.connections)) (c : Nat) :
    Books (s.closeConnectionSockets c ++ log)
      (socketOf (s.server.closeConnection c).connections) := by
  unfold TcpServerRun.closeConnectionSockets
  have hvalid (d : Nat) : (s.server.closeConnection c).isValid d = true
      ↔ d ≠ c ∧ s.server.isValid d = true := LinuxTcpServer.closeConnection_isValid
  split
  · rename_i hopen
    have hreleased := h.release (socketOf_server.mpr ⟨rfl, hopen⟩)
    have hcells : Function.update (socketOf s.server.connections) c none
        = socketOf (s.server.closeConnection c).connections := by
      funext d
      refine Option.ext fun x => ?_
      rw [socketOf_server, hvalid]
      by_cases hd : d = c
      · simp [hd]
      · rw [Function.update_of_ne hd, socketOf_server]
        simp [hd]
    rwa [hcells] at hreleased
  · rename_i hclosed
    have hcells : socketOf (s.server.closeConnection c).connections
        = socketOf s.server.connections := by
      refine socketOf_congr fun d => ?_
      rw [hvalid]
      refine ⟨And.right, fun hd => ⟨?_, hd⟩⟩
      rintro rfl
      exact hclosed hd
    rw [hcells]
    exact h

theorem books_remove {s : TcpServerRun} (hserver : s.server.WellFormed s.nextId)
    (h : Books log (socketOf s.server.connections)) (c : Nat) :
    Books (s.removeSockets c ++ log) (socketOf (s.remove c).server.connections) := by
  have hclosed : (s.closeConnection c).server.WellFormed (s.closeConnection c).nextId :=
    hserver.closeConnection c
  unfold TcpServerRun.removeSockets TcpServerRun.remove
  rw [sweepSockets_nil hclosed, List.nil_append, sweepClosed_sockets hclosed]
  exact books_closeConnection h c

theorem acceptCallback_server (s : TcpServerRun) (peer : TcpPeerInfo) (opened : Bool) :
    (s.acceptCallback peer opened).server
      = if !s.server.handler then s.server
        else if s.sweepClosed.server.connectionCount ≥ s.server.maxConnections then
          s.sweepClosed.server
        else if !opened then s.sweepClosed.server
        else s.sweepClosed.server.pushBack { id := s.nextId } := by
  unfold TcpServerRun.acceptCallback
  dsimp only
  cases s.server.handler with
  | false => rfl
  | true =>
      simp only [Bool.not_true, Bool.false_eq_true, if_false]
      by_cases hfull : s.sweepClosed.server.connectionCount ≥ s.server.maxConnections
      · rw [if_pos hfull]
        exact (congrArg TcpServerRun.server (if_pos (by exact hfull))).trans rfl
      · rw [if_neg hfull]
        refine (congrArg TcpServerRun.server (if_neg (by exact hfull))).trans ?_
        cases opened <;> rfl

theorem acceptCallback_nextId (s : TcpServerRun) (peer : TcpPeerInfo) (opened : Bool) :
    (s.acceptCallback peer opened).nextId = s.nextId + 1 := by
  unfold TcpServerRun.acceptCallback
  dsimp only
  split
  · rfl
  · split
    · rfl
    · split <;> rfl

/-- A socket comes in; it is closed at once, or a connection has it. -/
theorem books_accept {s : TcpServerRun} (hserver : s.server.WellFormed s.nextId)
    (h : Books log (socketOf s.server.connections)) (peer : TcpPeerInfo) (opened : Bool) :
    Books (s.acceptSockets opened ++ log)
      (socketOf (s.acceptCallback peer opened).server.connections) := by
  have hnew : s.server.isValid s.nextId ≠ true := fun hvalid =>
    Nat.lt_irrefl _ (hserver.old _ (LinuxTcpServer.owned_of_isValid hvalid))
  have hfree : socketOf s.server.connections s.nextId = none :=
    Option.eq_none_iff_forall_ne_some.mpr fun d hd => hnew (socketOf_server.mp hd).2
  have hacquired : Books (.acquired s.nextId :: log)
      (Function.update (socketOf s.server.connections) s.nextId (some s.nextId)) := by
    refine h.acquire hfree fun held hheld hmem => ?_
    obtain ⟨t, ht, hin⟩ := h.held
    obtain rfl := Option.some.inj (ht.symm.trans hheld)
    obtain ⟨c, hc⟩ := (hin _).mp hmem
    obtain ⟨rfl, hvalid⟩ := socketOf_server.mp hc
    exact hnew hvalid
  have hrejected : Books (.released s.nextId :: .acquired s.nextId :: log)
      (socketOf s.server.connections) := by
    have hreleased := hacquired.release (Function.update_self ..)
    rwa [Function.update_idem, ← hfree, Function.update_eq_self] at hreleased
  have hkept (c : Nat) : s.sweepClosed.server.isValid c = true ↔ s.server.isValid c = true :=
    hserver.sweepClosed_isValid
  rw [acceptCallback_server]
  unfold TcpServerRun.acceptSockets
  rw [sweepSockets_nil hserver]
  dsimp only
  split_ifs
  · exact hrejected
  · rw [sweepClosed_sockets hserver]
    exact hrejected
  · rw [sweepClosed_sockets hserver]
    exact hrejected
  · have hcells : Function.update (socketOf s.server.connections) s.nextId (some s.nextId)
        = socketOf (s.sweepClosed.server.pushBack { id := s.nextId }).connections := by
      funext c
      refine Option.ext fun d => ?_
      rw [socketOf_server, LinuxTcpServer.pushBack_isValid, hkept]
      by_cases hc : c = s.nextId
      · subst hc
        rw [Function.update_self]
        exact ⟨fun h => ⟨(Option.some.inj h).symm, .inr rfl⟩, fun h => congrArg some h.1.symm⟩
      · rw [Function.update_of_ne hc, socketOf_server, or_iff_left (Ne.symm hc)]
    rw [← hcells]
    exact hacquired

/-! ## Runs -/

/-- What holds in every state of a run. -/
structure Balanced (s : TcpServerSockets) : Prop where
  follows : s.serverRun.Follows
  books : Books s.sockets (socketOf s.serverRun.server.connections)
  accepted : ∀ c, s.sockets.count (.acquired c) = if c < s.serverRun.nextId then 1 else 0

theorem count_acquired_cons_released (c d : Nat) (calls : List (Entry Nat)) :
    (Entry.released d :: calls).count (.acquired c) = calls.count (.acquired c) :=
  List.count_cons_of_ne (by simp)

theorem count_acquired_bevSockets (connections : List LinuxTcpConnection) (c : Nat) :
    (connections.flatMap TcpServerRun.closeBevSockets).count (.acquired c) = 0 := by
  refine List.count_eq_zero.mpr fun hmem => ?_
  obtain ⟨k, -, hk⟩ := List.mem_flatMap.mp hmem
  unfold TcpServerRun.closeBevSockets at hk
  split at hk <;> simp at hk

theorem count_acquired_removeSockets (s : TcpServerRun) (d c : Nat) :
    (s.removeSockets d).count (.acquired c) = 0 := by
  have hclose : (s.closeConnectionSockets d).count (.acquired c) = 0 := by
    unfold TcpServerRun.closeConnectionSockets
    split <;> simp
  unfold TcpServerRun.removeSockets
  rw [List.count_append, hclose]
  exact count_acquired_bevSockets _ c

theorem count_acquired_acceptSockets (s : TcpServerRun) (opened : Bool) (c : Nat) :
    (s.acceptSockets opened).count (.acquired c) = if c = s.nextId then 1 else 0 := by
  have hnew : List.count (Entry.acquired c) [Entry.acquired s.nextId]
      = if c = s.nextId then 1 else 0 := by
    by_cases hc : c = s.nextId
    · simp [hc]
    · rw [if_neg hc]
      exact List.count_eq_zero.mpr (by simp [hc])
  have hswept : List.count (Entry.acquired c) (s.sweepSockets ++ [Entry.acquired s.nextId])
      = if c = s.nextId then 1 else 0 := by
    rw [List.count_append, hnew]
    exact (congrArg (· + _) (count_acquired_bevSockets _ c)).trans (Nat.zero_add _)
  unfold TcpServerRun.acceptSockets
  dsimp only
  split
  · rwa [count_acquired_cons_released]
  · split
    · rwa [count_acquired_cons_released]
    · split
      · rwa [count_acquired_cons_released]
      · exact hswept

/-- Only an accept brings a socket in. -/
theorem count_stepSockets {s t : TcpServerRun} {e : TcpServerEvent} (hstep : s.step e = some t)
    (c : Nat) : (s.stepSockets e).count (.acquired c) + (if c < s.nextId then 1 else 0)
      = if c < t.nextId then 1 else 0 := by
  obtain ⟨-, hnext⟩ := Option.ite_none_right_eq_some.mp hstep
  obtain rfl := Option.some.inj hnext
  have hused (calls : List (Entry Nat)) (d : Nat) (h : calls.count (.acquired c) = 0) :
      (calls ++ [Entry.used d]).count (Entry.acquired c) = 0 := by
    rw [List.count_append, h]
    simp
  have hsweep : s.sweepSockets.count (.acquired c) = 0 := count_acquired_bevSockets _ c
  -- everything but an accept
  have hkept {calls : List (Entry Nat)} {n : Nat} (h : calls.count (.acquired c) = 0)
      (hn : n = s.nextId) :
      calls.count (.acquired c) + (if c < s.nextId then 1 else 0) = if c < n then 1 else 0 := by
    rw [h, hn, Nat.zero_add]
  cases e with
  | accept peer opened =>
      show (s.acceptSockets opened).count (.acquired c) + _ = _
      rw [count_acquired_acceptSockets]
      show _ = if c < (s.acceptCallback peer opened).nextId then 1 else 0
      rw [acceptCallback_nextId]
      split_ifs <;> omega
  | readable d =>
      have hcount := hused (if s.server.isValid d then [] else s.sweepSockets) d
        (by split <;> simp [hsweep])
      refine hkept hcount ?_
      simp only [TcpServerRun.next, TcpServerRun.readCallback]
      split <;> rfl
  | writable d =>
      have hcount := hused (if s.server.isValid d then [] else s.sweepSockets) d
        (by split <;> simp [hsweep])
      refine hkept hcount ?_
      simp only [TcpServerRun.next, TcpServerRun.writeCallback]
      split <;> rfl
  | event d timeout error eof errno =>
      have hcount := hused (if timeout || error || eof then [] else s.sweepSockets) d
        (by split <;> simp [hsweep])
      refine hkept hcount ?_
      simp only [TcpServerRun.next, TcpServerRun.eventCallback]
      split_ifs <;> rfl
  | closeConnection d =>
      refine hkept ?_ rfl
      simp only [TcpServerRun.stepSockets, TcpServerRun.closeConnectionSockets]
      split <;> simp
  | use d => exact hkept rfl rfl
  | remove d => exact hkept (count_acquired_removeSockets s d c) rfl
  | close => exact hkept (count_acquired_bevSockets _ c) rfl
  | listen bound => exact hkept (count_acquired_bevSockets _ c) rfl
  | callbackReturns =>
      refine hkept ?_ ?_
      · simp only [TcpServerRun.stepSockets]
        split
        · exact count_acquired_removeSockets s _ c
        · exact hsweep
      · simp only [TcpServerRun.next]
        cases s.running.getD .acceptCallback <;> rfl

/-- The books after a callback about a connection that is valid. -/
theorem books_used {s : TcpServerRun} (h : Books log (socketOf s.server.connections)) {c : Nat}
    (hvalid : s.server.isValid c = true) :
    Books ([.used c] ++ log) (socketOf s.server.connections) :=
  h.use (socketOf_server.mpr ⟨rfl, hvalid⟩)

theorem books_sweep {s : TcpServerRun} (hserver : s.server.WellFormed s.nextId)
    (h : Books log (socketOf s.server.connections)) :
    Books (s.sweepSockets ++ log) (socketOf s.sweepClosed.server.connections) := by
  rw [sweepSockets_nil hserver, sweepClosed_sockets hserver]
  exact h

theorem books_close {s : TcpServerRun} (hserver : s.server.WellFormed s.nextId)
    (h : Books log (socketOf s.server.connections)) :
    Books (s.closeSockets ++ log) (socketOf []) := by
  have hnone : socketOf [] = fun _ => none := rfl
  rw [hnone]
  exact books_destroy hserver.ids h

/-- **The step lemma.** -/
theorem step_balanced {s t : TcpServerSockets} {e : TcpServerEvent} (h : Balanced s)
    (hstep : s.step e = some t) : Balanced t := by
  obtain ⟨r, hr, rfl⟩ := Option.map_eq_some_iff.mp hstep
  have hserver := h.follows.server
  refine ⟨h.follows.step hr, ?_, fun c => ?_⟩
  · obtain ⟨henabled, hnext⟩ := Option.ite_none_right_eq_some.mp hr
    obtain rfl := Option.some.inj hnext
    cases e with
    | accept peer opened => exact books_accept hserver h.books peer opened
    | readable c =>
        obtain ⟨-, hvalid⟩ := Bool.and_eq_true_iff.mp henabled
        have htouched : (s.serverRun.note [.touched c]).server.isValid c = true := hvalid
        simp only [TcpServerRun.stepSockets, TcpServerRun.next, TcpServerRun.readCallback, hvalid,
          htouched, if_true, List.nil_append]
        exact books_used h.books hvalid
    | writable c =>
        obtain ⟨-, hvalid⟩ := Bool.and_eq_true_iff.mp henabled
        have htouched : (s.serverRun.note [.touched c]).server.isValid c = true := hvalid
        simp only [TcpServerRun.stepSockets, TcpServerRun.next, TcpServerRun.writeCallback, hvalid,
          htouched, if_true, List.nil_append]
        exact books_used h.books hvalid
    | event c timeout error eof errno =>
        obtain ⟨-, hvalid⟩ := Bool.and_eq_true_iff.mp henabled
        have hused := books_used h.books hvalid
        simp only [TcpServerRun.stepSockets, TcpServerRun.next, TcpServerRun.eventCallback]
        cases timeout with
        | true => exact hused
        | false =>
            cases error with
            | true => exact hused
            | false =>
                cases eof with
                | true => exact hused
                | false =>
                    rw [List.append_assoc]
                    exact books_sweep hserver hused
    | closeConnection c => exact books_closeConnection h.books c
    | use c => exact h.books
    | remove c => exact books_remove hserver h.books c
    | close => exact books_close hserver h.books
    | listen bound => exact books_close hserver h.books
    | callbackReturns =>
        obtain ⟨trampoline, hrunning⟩ := Option.isSome_iff_exists.mp henabled
        simp only [TcpServerRun.stepSockets, TcpServerRun.next, hrunning, Option.getD_some]
        cases trampoline with
        | eventCallback c => exact books_remove hserver h.books c
        | acceptCallback => exact books_sweep hserver h.books
        | readCallback => exact books_sweep hserver h.books
        | writeCallback => exact books_sweep hserver h.books
  · rw [List.count_append, h.accepted c]
    exact count_stepSockets hr c

theorem balanced_listening (maxConnections : Nat) : Balanced (listening maxConnections) where
  follows := TcpServerRun.follows_listening maxConnections
  books := books_nil
  accepted _ := rfl

/-- **Every socket is closed once**: whatever comes in and whatever the handlers close, as long
as no `on_close` or `on_error` returns after its connection was destroyed, the sockets that
are open are those of the valid connections; each was open whenever libevent used it, and has
been closed exactly once if it is not open any more. Where the server has no connections, as
behind `close` and in its destructor, none is open. -/
theorem sockets_closed_once {maxConnections : Nat} {events : List TcpServerEvent}
    {s : TcpServerSockets}
    (hrun : run (restrict returnsAlive step) (listening maxConnections) events = some s) :
    (∃ opened, held s.sockets = some opened
        ∧ ∀ c, c ∈ opened ↔ s.serverRun.server.isValid c = true)
      ∧ (∀ c, s.sockets.count (.acquired c) = if c < s.serverRun.nextId then 1 else 0)
      ∧ (∀ c < s.serverRun.nextId, s.sockets.count (.released c)
        = if s.serverRun.server.isValid c then 0 else 1)
      ∧ ∀ later earlier call c, s.sockets = later ++ call :: earlier →
        call = .used c ∨ call = .released c →
          ∃ opened, held earlier = some opened ∧ c ∈ opened := by
  have hbalanced := run_invariant (fun _ _ _ h hs => step_balanced h hs)
    (balanced_listening maxConnections) (run_of_restrict hrun)
  obtain ⟨opened, hopened, hmem⟩ := hbalanced.books.held
  have hvalid (c : Nat) : c ∈ opened ↔ s.serverRun.server.isValid c = true := by
    rw [hmem]
    constructor
    · rintro ⟨d, hd⟩
      obtain ⟨rfl, hd⟩ := socketOf_server.mp hd
      exact hd
    · exact fun hc => ⟨c, socketOf_server.mpr ⟨rfl, hc⟩⟩
  refine ⟨⟨opened, hopened, hvalid⟩, hbalanced.accepted, fun c hc => ?_,
    fun later earlier call c hsockets hcall => ?_⟩
  · have hcount := count_acquired hopened c
    rw [hbalanced.accepted c, if_pos hc] at hcount
    by_cases hopen : s.serverRun.server.isValid c = true
    · rw [if_pos ((hvalid c).mpr hopen)] at hcount
      rw [if_pos hopen]
      omega
    · rw [if_neg fun hin => hopen ((hvalid c).mp hin)] at hcount
      rw [if_neg hopen]
      omega
  · rw [hsockets] at hopened
    exact held_before hcall hopened

/-- There is room for one: a second socket is turned away, and the server is closed while
the first has data. -/
def shutDown : List TcpServerEvent :=
  [.accept {} true, .callbackReturns, .accept {} true, .readable 0, .close, .callbackReturns]

theorem sockets_closed_once_run : ∃ s,
    run (restrict returnsAlive step) (listening 1) shutDown = some s
    ∧ s.sockets = [.released 0, .used 0, .released 1, .acquired 1, .acquired 0]
    ∧ s.sockets.count (.released 0) = 1 := by
  obtain ⟨s, hs⟩ : ∃ s, run (restrict returnsAlive step) (listening 1) shutDown = some s :=
    ⟨_, rfl⟩
  obtain ⟨-, -, hreleased, -⟩ := sockets_closed_once hs
  have hstate := Option.some.inj hs
  have hnext : 0 < s.serverRun.nextId := by
    rw [← hstate]
    decide
  have hgone : s.serverRun.server.isValid 0 = false := by
    rw [← hstate]
    rfl
  refine ⟨s, hs, ?_, ?_⟩
  · rw [← hstate]
    rfl
  · rw [hreleased 0 hnext, hgone]
    rfl

end TcpServerSockets

end AsyncEventLoop
