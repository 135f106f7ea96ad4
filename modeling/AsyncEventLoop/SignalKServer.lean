import Mathlib.Data.Finset.Card
import AsyncEventLoop.TcpConnectionRegistry
import AsyncEventLoop.TcpSlotOwnership

/-!
# The Signal K server

The application of `MiniSignalKServerExample`, behind a `TcpLineServerHandler` on a
`LinuxTcpServer`: its callbacks keep the subscribers in a `TcpConnectionRegistry`, and a
wind update is written to all of them. There are three tables then, and none knows of the
others: the server's connections, the slots of the line server and the registry.

Between the callbacks the three agree (`Agree`), provided that the registry is no smaller
than the table of slots and that the line server closes what has too much to send. So the
registry has no connection that was destroyed, and an update goes once to every connection
there is.
-/

namespace AsyncEventLoop

open Runs

/-! ## The application -/

/-- The connections, and the registry of the application. -/
structure SignalKWorld (m : Nat) where
  tcp : TcpWorld := {}
  clients : TcpConnectionRegistry m := {}

namespace SignalKWorld

variable {m : Nat}

def closeConnection (w : SignalKWorld m) (connection : Nat) : SignalKWorld m :=
  { w with tcp := w.tcp.act (.close connection) }

def removeClient (w : SignalKWorld m) (connection : Nat) : SignalKWorld m :=
  { w with clients := (w.clients.remove connection).2 }

/-- `SignalKCallbacks`. -/
def callback (w : SignalKWorld m) : AppCall → SignalKWorld m
  | .onAccept connection _ =>
      let added := w.clients.add connection
      let w := { w with clients := added.2 }
      if !added.1 then w.closeConnection connection else w
  | .onLine _ _ => w
  | .onBackpressure connection _ => w.removeClient connection
  | .onClose connection => w.removeClient connection
  | .onError connection _ => w.removeClient connection
  | .onTooManyConnections connection => w.closeConnection connection

/-- One turn of the loop of `for_each`; the callback writes to the connection. -/
def broadcastTurn (len : Nat) (w : SignalKWorld m) (i : Fin m) : SignalKWorld m :=
  match w.clients.connections i with
  | none => w
  | some connection =>
      if w.tcp.server.isValid connection then
        { w with tcp := w.tcp.act (.write connection len) }
      else w

/-- `broadcast_wind_update`; `len` is what `snprintf` returns. -/
def broadcastWindUpdate (w : SignalKWorld m) (len : Int) : SignalKWorld m :=
  if len ≤ 0 ∨ len ≥ 512 then w
  else (List.finRange m).foldl (broadcastTurn len.toNat) w

end SignalKWorld

/-- A call of a connection. -/
def onTcpWorld {m : Nat} {α : Type} (call : TcpWorld → α × TcpWorld) (w : SignalKWorld m) :
    α × SignalKWorld m :=
  ((call w.tcp).1, { w with tcp := (call w.tcp).2 })

def signalKEnv (m : Nat) : ConnectionEnv (SignalKWorld m) where
  valid c := onTcpWorld (linuxEnv.valid c)
  inputSize c := onTcpWorld (linuxEnv.inputSize c)
  outputSize c := onTcpWorld (linuxEnv.outputSize c)
  read c := onTcpWorld (linuxEnv.read c)
  close c w := w.closeConnection c
  app k w := w.callback k

/-- libevent's callbacks for the connections, and the wind updates that come from the other
server in between. -/
inductive SignalKEvent where
  | accept (peer : TcpPeerInfo) (opened : Bool)
  | readable (connection : Nat) (bytes : List UInt8) (turns : Nat)
  | writable (connection pending : Nat)
  | failed (connection : Nat) (errorCode : Int)
  | eof (connection : Nat)
  | windUpdate (len : Int)

namespace LineServer

variable {N n m : Nat}

/-- The line server with this application, listening. -/
def signalK (N n m maxConnections : Nat) (options : TcpBackpressureOptions) :
    LineServer (SignalKWorld m) N n :=
  .fresh N n options { tcp := { server := { maxConnections := maxConnections } } }

def onTcp (s : LineServer (SignalKWorld m) N n) (f : TcpWorld → TcpWorld) :
    LineServer (SignalKWorld m) N n :=
  { s with world := { s.world with tcp := f s.world.tcp } }

def sweepClosed (s : LineServer (SignalKWorld m) N n) : LineServer (SignalKWorld m) N n :=
  s.onTcp fun w => { w with server := w.server.sweepClosed }

/-- A new connection, with the next id. -/
def pushTcp (s : LineServer (SignalKWorld m) N n) : LineServer (SignalKWorld m) N n :=
  s.onTcp fun w => { w with
    server := w.server.pushBack { id := w.nextId }
    nextId := w.nextId + 1 }

/-- `accept_callback`. -/
def acceptClient (s : LineServer (SignalKWorld m) N n) (peer : TcpPeerInfo) (opened : Bool) :
    LineServer (SignalKWorld m) N n :=
  if !s.world.tcp.server.handler then s
  else
    let s := s.sweepClosed
    if s.world.tcp.server.connectionCount ≥ s.world.tcp.server.maxConnections then s
    else if !opened then s
    else (s.pushTcp.onAccept (signalKEnv m) s.world.tcp.nextId peer).sweepClosed

/-- One callback, or one wind update. libevent makes no callback for a bufferevent that has
been freed. -/
def signalKStep (s : LineServer (SignalKWorld m) N n) :
    SignalKEvent → Option (LineServer (SignalKWorld m) N n)
  | .accept peer opened => some (s.acceptClient peer opened)
  | .readable connection bytes turns =>
      if s.world.tcp.server.isValid connection then
        ((s.onTcp fun w => { w with
          input := Function.update w.input connection (w.input connection ++ bytes) }).onData
            (signalKEnv m) connection turns).map sweepClosed
      else none
  | .writable connection pending =>
      if s.world.tcp.server.isValid connection then
        some ((s.onTcp fun w => { w with
          output := Function.update w.output connection pending }).onWriteReady (signalKEnv m)
            connection).sweepClosed
      else none
  | .failed connection errorCode =>
      if s.world.tcp.server.isValid connection then
        some ((s.onError (signalKEnv m) connection errorCode).onTcp
          (·.act (.close connection))).sweepClosed
      else none
  | .eof connection =>
      if s.world.tcp.server.isValid connection then
        some ((s.onClose (signalKEnv m) connection).onTcp
          (·.act (.close connection))).sweepClosed
      else none
  | .windUpdate len => some { s with world := s.world.broadcastWindUpdate len }

/-! ## What leaves the tables alone -/

/-- The tables are the same. -/
structure SameTables (s s' : LineServer (SignalKWorld m) N n) : Prop where
  options : s'.options = s.options
  slots : ∀ i, (s'.slots i).connection = (s.slots i).connection
  server : s'.world.tcp.server = s.world.tcp.server
  nextId : s'.world.tcp.nextId = s.world.tcp.nextId
  clients : s'.world.clients = s.world.clients

section SameTables

variable {s t : LineServer (SignalKWorld m) N n}

theorem SameTables.refl (s : LineServer (SignalKWorld m) N n) : SameTables s s :=
  ⟨rfl, fun _ => rfl, rfl, rfl, rfl⟩

theorem SameTables.trans {u : LineServer (SignalKWorld m) N n} (h : SameTables s t)
    (h' : SameTables t u) : SameTables s u :=
  ⟨h'.options.trans h.options, fun i => (h'.slots i).trans (h.slots i),
    h'.server.trans h.server, h'.nextId.trans h.nextId, h'.clients.trans h.clients⟩

theorem putSlot_tables (s : LineServer (SignalKWorld m) N n) (i : Nat) (slot : LineSlot N)
    (h : slot.connection = (s.slots i).connection) : SameTables s (s.putSlot i slot) := by
  refine ⟨rfl, fun j => ?_, rfl, rfl, rfl⟩
  by_cases hij : j = i
  · rw [hij, putSlot_self, h]
  · rw [putSlot_of_ne s hij]

theorem consult_tables (s : LineServer (SignalKWorld m) N n) : SameTables s s.consult :=
  ⟨rfl, fun _ => rfl, rfl, rfl, rfl⟩

theorem Looks.tables (h : Looks (signalKEnv m) s t) : SameTables s t := by
  induction h with
  | refl => exact .refl _
  | valid connection _ ih => exact ih.trans (consult_tables _)
  | inputSize connection _ ih => exact ih.trans (consult_tables _)
  | outputSize connection _ ih => exact ih.trans (consult_tables _)
  | monitor i m _ ih => exact ih.trans (putSlot_tables _ i _ rfl)

theorem read_tables (s : LineServer (SignalKWorld m) N n) (i : Nat) :
    SameTables s (s.read (signalKEnv m) i).2 := by
  unfold read
  split
  · exact .refl s
  · rename_i connection _
    have hasked : SameTables s (s.ask ((signalKEnv m).read connection)).2 := by
      by_cases hvalid : s.world.tcp.server.isValid connection <;>
        exact ⟨rfl, fun _ => rfl, by simp [ask, consult, note, signalKEnv, onTcpWorld, linuxEnv,
          hvalid], by simp [ask, consult, note, signalKEnv, onTcpWorld, linuxEnv, hvalid], rfl⟩
    dsimp only
    split
    · exact hasked.trans ⟨rfl, fun _ => rfl, rfl, rfl, rfl⟩
    · exact hasked

/-- The application ignores the lines. -/
theorem handleLine_tables (s : LineServer (SignalKWorld m) N n) (i : Nat) (line : List UInt8) :
    SameTables s (s.handleLine (signalKEnv m) i line) := by
  unfold handleLine
  split
  · exact .refl s
  · dsimp only
    split <;> exact ⟨rfl, fun _ => rfl, rfl, rfl, rfl⟩

theorem consume_tables (s : LineServer (SignalKWorld m) N n) (i : Nat) (byte : UInt8) :
    SameTables s (s.consume (signalKEnv m) i byte) := by
  have htaken := putSlot_tables s i
    { s.slots i with reader := ((s.slots i).reader.readByte byte).1 } rfl
  unfold consume
  dsimp only
  split
  · exact htaken.trans (handleLine_tables _ i _)
  · exact htaken

theorem poll_tables {i turns : Nat} (hpoll : s.poll (signalKEnv m) i turns = some t) :
    SameTables s t := by
  induction turns generalizing s with
  | zero => cases hpoll
  | succ turns ih =>
      have hready := (readable_looks (signalKEnv m) s i).tables
      have hread := hready.trans (read_tables (s.readable (signalKEnv m) i).2 i)
      simp only [poll] at hpoll
      split at hpoll
      · exact Option.some.inj hpoll ▸ hready
      · split at hpoll
        · exact Option.some.inj hpoll ▸ hread
        · exact hread.trans ((consume_tables _ i _).trans (ih hpoll))

end SameTables

/-! ## The three tables -/

/-- The connections that have a slot, those in the registry and those that are valid are
the same. -/
structure Agree (s : LineServer (SignalKWorld m) N n) : Prop extends Distinct s where
  closes : s.options.closeOnLimit = true
  server : s.world.tcp.server.WellFormed s.world.tcp.nextId
  registry : s.world.clients.Sound
  bound : ∀ c, c ∈ s.bound ↔ s.world.tcp.server.isValid c = true
  listed : ∀ c, c ∈ SlotArray.members s.world.clients.connections
    ↔ s.world.tcp.server.isValid c = true

section Agree

variable {s t : LineServer (SignalKWorld m) N n}

theorem SameTables.bound (h : SameTables s t) : t.bound = s.bound := by
  simp only [LineServer.bound, h.slots]

theorem Agree.same (h : Agree s) (hs : SameTables s t) : Agree t where
  toDistinct := h.toDistinct.of_sub fun i c hi => (hs.slots i).symm.trans hi
  closes := by rw [hs.options, h.closes]
  server := by rw [hs.server, hs.nextId]; exact h.server
  registry := by rw [hs.clients]; exact h.registry
  bound c := by rw [hs.bound, hs.server]; exact h.bound c
  listed c := by rw [hs.clients, hs.server]; exact h.listed c

theorem Agree.slot_of_valid (h : Agree s) {c : Nat}
    (hvalid : s.world.tcp.server.isValid c = true) :
    ∃ i, s.find c = some i ∧ (s.slots i).connection = some c := by
  obtain ⟨j, hj, hslot⟩ := mem_bound.mp ((h.bound c).mpr hvalid)
  cases hfind : s.find c with
  | some i => exact ⟨i, rfl, find_some hfind⟩
  | none => exact absurd hslot (find_none hfind hj)

/-- A connection is closed, taken out of the registry and loses its slot. -/
theorem Agree.depart (h : Agree s) (hm : m ≤ 2 ^ 31) {i c : Nat}
    (hi : (s.slots i).connection = some c) (hoptions : t.options = s.options)
    (hslots : ∀ j, (t.slots j).connection = ((s.unbind i).slots j).connection)
    (hserver : t.world.tcp.server = s.world.tcp.server.closeConnection c)
    (hnext : t.world.tcp.nextId = s.world.tcp.nextId)
    (hclients : t.world.clients = (s.world.clients.remove c).2) : Agree t := by
  obtain ⟨hsound, -, hmembers⟩ := h.registry.remove hm c
  have hbound : t.bound = (s.unbind i).bound := by
    simp only [LineServer.bound, hslots]
  refine ⟨?_, ?_, ?_, ?_, ?_, ?_⟩
  · exact h.toDistinct.of_sub fun j d hj => (unbind_connection ((hslots j).symm.trans hj)).2
  · rw [hoptions, h.closes]
  · rw [hserver, hnext]
    exact h.server.closeConnection c
  · rw [hclients]
    exact hsound
  · intro d
    rw [hbound, h.toDistinct.mem_bound_unbind hi, hserver,
      LinuxTcpServer.closeConnection_isValid, h.bound d]
  · intro d
    rw [hclients, hmembers, Finset.mem_erase, hserver, LinuxTcpServer.closeConnection_isValid,
      h.listed d]

/-! ### Backpressure -/

theorem Agree.limit (h : Agree s) (hm : m ≤ 2 ^ 31) {i c : Nat}
    (hi : (s.slots i).connection = some c) (info : TcpBackpressureInfo) :
    Agree (s.limit (signalKEnv m) i c info) := by
  have hvalid : s.world.tcp.server.isValid c = true :=
    (h.bound c).mp (mem_bound.mpr ⟨i, h.range i c hi, hi⟩)
  have hgone : (s.world.tcp.server.closeConnection c).isValid c = false :=
    Bool.eq_false_iff.mpr fun hstill =>
      (LinuxTcpServer.closeConnection_isValid.mp hstill).1 rfl
  -- the monitor is reported on, and the connection is valid until it is closed
  have hlimit : s.limit (signalKEnv m) i c info
      = ((((s.call (signalKEnv m) (.onBackpressure c info)).consult).closeConnection
        (signalKEnv m) c).consult).unbind i := by
    simp [LineServer.limit, closeOnLimit, andValid, ask, call, consult, note, closeConnection,
      signalKEnv, onTcpWorld, linuxEnv, SignalKWorld.callback, SignalKWorld.removeClient,
      SignalKWorld.closeConnection, TcpWorld.act, h.closes, hvalid, hgone]
  rw [hlimit]
  exact h.depart hm hi rfl (fun _ => rfl) rfl rfl rfl

theorem Agree.checkBackpressure (h : Agree s) (hm : m ≤ 2 ^ 31) (i : Nat) :
    Agree (s.checkBackpressure (signalKEnv m) i) := by
  unfold LineServer.checkBackpressure
  split
  · exact h
  · rename_i c hi
    have hvalid : SameTables s (s.ask ((signalKEnv m).valid c)).2 := consult_tables s
    have hchecked := hvalid.trans (check_looks (signalKEnv m) _ i c).tables
    dsimp only
    split
    · exact h.same hvalid
    · split
      · exact h.same hchecked
      · exact (h.same hchecked).limit hm ((hchecked.slots i).trans hi) _

theorem Agree.checkAllBackpressure (h : Agree s) (hm : m ≤ 2 ^ 31) :
    Agree (s.checkAllBackpressure (signalKEnv m)) := by
  unfold LineServer.checkAllBackpressure
  induction List.range n generalizing s with
  | nil => exact h
  | cons i rest ih => exact ih (h.checkBackpressure hm i)

/-! ### The callbacks -/

theorem Agree.onData (h : Agree s) (hm : m ≤ 2 ^ 31) {c turns : Nat}
    (hvalid : s.world.tcp.server.isValid c = true)
    (hdata : s.onData (signalKEnv m) c turns = some t) : Agree t := by
  obtain ⟨i, hfind, -⟩ := h.slot_of_valid hvalid
  have hacquire : s.acquire c = (some i, s.consult) := by
    have hfound : s.consult.find c = some i := hfind
    simp [acquire, hfound]
  unfold LineServer.onData at hdata
  rw [hacquire] at hdata
  obtain ⟨u, hpoll, rfl⟩ := Option.map_eq_some_iff.mp hdata
  exact ((h.same (consult_tables s)).same (poll_tables hpoll)).checkAllBackpressure hm

theorem Agree.onWriteReady (h : Agree s) (hm : m ≤ 2 ^ 31) (c : Nat) :
    Agree (s.onWriteReady (signalKEnv m) c) := by
  have hconsulted := h.same (consult_tables s)
  unfold LineServer.onWriteReady
  dsimp only
  split
  · exact hconsulted.checkBackpressure hm _
  · exact hconsulted

/-- `on_error` or `on_close`, and the `close` behind it. -/
theorem Agree.leave (h : Agree s) (hm : m ≤ 2 ^ 31) {k : AppCall} {c : Nat}
    (hk : ∀ w : SignalKWorld m, w.callback k = w.removeClient c)
    (hvalid : s.world.tcp.server.isValid c = true) :
    Agree (((s.call (signalKEnv m) k).release c).onTcp (·.act (.close c))) := by
  obtain ⟨i, hfind, hi⟩ := h.slot_of_valid hvalid
  have hrelease : (s.call (signalKEnv m) k).release c
      = ((s.call (signalKEnv m) k).consult).unbind i := by
    have hfound : (s.call (signalKEnv m) k).consult.find c = some i := hfind
    simp [release, hfound]
  have hworld : (s.call (signalKEnv m) k).world = s.world.removeClient c := hk s.world
  rw [hrelease]
  refine h.depart hm hi rfl (fun _ => rfl) ?_ ?_ ?_
  · show (s.call (signalKEnv m) k).world.tcp.server.closeConnection c = _
    rw [hworld]
    rfl
  · show (s.call (signalKEnv m) k).world.tcp.nextId = _
    rw [hworld]
    rfl
  · show (s.call (signalKEnv m) k).world.clients = _
    rw [hworld]
    rfl

theorem Agree.sweep (h : Agree s) : Agree s.sweepClosed where
  toDistinct := h.toDistinct.of_sub fun _ _ hi => hi
  closes := h.closes
  server := h.server.sweepClosed
  registry := h.registry
  bound c := (h.bound c).trans h.server.sweepClosed_isValid.symm
  listed c := (h.listed c).trans h.server.sweepClosed_isValid.symm

/-- Where there is a free slot, there is room in the registry. -/
theorem Agree.room (h : Agree s) (hnm : n ≤ m) {i : Nat} (hfree : s.free = some i) :
    (SlotArray.members s.world.clients.connections).card < m := by
  have hsame : SlotArray.members s.world.clients.connections = s.bound.toFinset := by
    ext c
    rw [List.mem_toFinset, h.listed, h.bound]
  have hcount : s.activeConnections < n := by
    obtain ⟨hi, hempty⟩ := free_some hfree
    have hle : s.activeConnections ≤ (List.range n).length := List.countP_le_length
    rw [List.length_range] at hle
    refine Nat.lt_of_le_of_ne hle fun hall => ?_
    have hbusy := List.countP_eq_length.mp (hall.trans List.length_range.symm) i
      (List.mem_range.mpr hi)
    rw [hempty] at hbusy
    cases hbusy
  rw [hsame, List.toFinset_card_of_nodup h.toDistinct.bound_nodup, ← activeConnections_eq]
  exact Nat.lt_of_lt_of_le hcount hnm

/-- A new connection gets a slot and is put into the registry. -/
theorem Agree.arrive (h : Agree s) (hm : m ≤ 2 ^ 31) (hnm : n ≤ m) {i : Nat}
    (hfind : s.find s.world.tcp.nextId = none) (hfree : s.free = some i)
    (hoptions : t.options = s.options)
    (hslots : ∀ j, (t.slots j).connection = ((s.bind i s.world.tcp.nextId).slots j).connection)
    (hserver : t.world.tcp.server = s.world.tcp.server.pushBack { id := s.world.tcp.nextId })
    (hnext : t.world.tcp.nextId = s.world.tcp.nextId + 1)
    (hclients : t.world.clients = (s.world.clients.add s.world.tcp.nextId).2) : Agree t := by
  obtain ⟨hsound, -, hmembers⟩ := h.registry.add hm s.world.tcp.nextId
  rw [if_pos (Or.inr (h.room hnm hfree))] at hmembers
  have hbound : t.bound = (s.bind i s.world.tcp.nextId).bound := by
    simp only [LineServer.bound, hslots]
  have hvalid (c : Nat) : t.world.tcp.server.isValid c = true
      ↔ c = s.world.tcp.nextId ∨ s.world.tcp.server.isValid c = true := by
    rw [hserver, LinuxTcpServer.pushBack_isValid, or_comm, eq_comm]
  refine ⟨?_, ?_, ?_, ?_, ?_, ?_⟩
  · exact (h.toDistinct.bind hfind hfree).of_sub fun j c hj => (hslots j).symm.trans hj
  · rw [hoptions, h.closes]
  · rw [hserver, hnext]
    exact h.server.pushBack
  · rw [hclients]
    exact hsound
  · intro c
    rw [hbound, mem_bound_bind hfree, h.bound c, hvalid]
  · intro c
    rw [hclients, hmembers, Finset.mem_insert, h.listed c, hvalid]

theorem Agree.new_invalid (h : Agree s) :
    s.world.tcp.server.isValid s.world.tcp.nextId ≠ true := fun hvalid =>
  Nat.lt_irrefl _ (h.server.old _ (LinuxTcpServer.owned_of_isValid hvalid))

theorem Agree.onAccept (h : Agree s) (hm : m ≤ 2 ^ 31) (hnm : n ≤ m) (peer : TcpPeerInfo) :
    Agree (s.pushTcp.onAccept (signalKEnv m) s.world.tcp.nextId peer) := by
  have hspec := acquire_spec s.pushTcp s.world.tcp.nextId
  unfold LineServer.onAccept
  generalize s.pushTcp.acquire s.world.tcp.nextId = r at hspec ⊢
  obtain ⟨slot, u⟩ := r
  cases hspec with
  | found i hfind =>
      have hslot : (s.slots i).connection = some s.world.tcp.nextId :=
        find_some (s := s.pushTcp) hfind
      have hbusy := (h.bound _).mp (mem_bound.mpr ⟨i, h.range i _ hslot, hslot⟩)
      exact absurd hbusy h.new_invalid
  | bound i hfind hfree =>
      have hfree' : s.free = some i := hfree
      obtain ⟨-, hadded, -⟩ := h.registry.add hm s.world.tcp.nextId
      rw [decide_eq_true (Or.inr (h.room hnm hfree'))] at hadded
      have hworld : (signalKEnv m).app (.onAccept s.world.tcp.nextId peer) s.pushTcp.world
          = { s.pushTcp.world with clients := (s.world.clients.add s.world.tcp.nextId).2 } := by
        simp [signalKEnv, SignalKWorld.callback, pushTcp, onTcp, hadded]
      let fresh := (s.pushTcp.consult.bind i s.world.tcp.nextId).slots i
      have hreset := putSlot_tables (s.pushTcp.consult.bind i s.world.tcp.nextId) i
        { fresh with backpressure := fresh.backpressure.reset } rfl
      refine h.arrive hm hnm hfind hfree rfl hreset.slots ?_ ?_ ?_
      · exact congrArg (fun w : SignalKWorld m => w.tcp.server) hworld
      · exact congrArg (fun w : SignalKWorld m => w.tcp.nextId) hworld
      · exact congrArg SignalKWorld.clients hworld
  | full hfind hfree =>
      have hvalid (c : Nat) : ((s.world.tcp.server.pushBack
            { id := s.world.tcp.nextId }).closeConnection s.world.tcp.nextId).isValid c = true
          ↔ s.world.tcp.server.isValid c = true := by
        rw [LinuxTcpServer.closeConnection_isValid, LinuxTcpServer.pushBack_isValid]
        constructor
        · rintro ⟨hne, hold | hnew⟩
          · exact hold
          · exact absurd hnew.symm hne
        · intro hold
          refine ⟨?_, .inl hold⟩
          rintro rfl
          exact h.new_invalid hold
      exact ⟨h.toDistinct.of_sub fun _ _ hi => hi, h.closes,
        h.server.pushBack.closeConnection _, h.registry,
        fun c => (h.bound c).trans (hvalid c).symm, fun c => (h.listed c).trans (hvalid c).symm⟩

end Agree

/-! ## Wind updates -/

section Broadcast

open SignalKWorld

theorem broadcastTurn_spec (len : Nat) (w : SignalKWorld m) (i : Fin m) :
    (broadcastTurn len w i).clients = w.clients
      ∧ (broadcastTurn len w i).tcp.server = w.tcp.server
      ∧ (broadcastTurn len w i).tcp.nextId = w.tcp.nextId
      ∧ ∀ c, (broadcastTurn len w i).tcp.output c = w.tcp.output c
        + if w.clients.connections i = some c ∧ w.tcp.server.isValid c = true then len else 0 := by
  unfold broadcastTurn
  cases hcell : w.clients.connections i with
  | none => exact ⟨rfl, rfl, rfl, fun c => by simp⟩
  | some d =>
      dsimp only
      by_cases hvalid : w.tcp.server.isValid d = true
      · rw [if_pos hvalid]
        refine ⟨rfl, ?_, ?_, fun c => ?_⟩
        · simp [TcpWorld.act, hvalid]
        · simp [TcpWorld.act, hvalid]
        · by_cases hc : c = d
          · subst hc
            simp [TcpWorld.act, hvalid]
          · simp [TcpWorld.act, hvalid, hc, Ne.symm hc]
      · rw [if_neg hvalid]
        refine ⟨rfl, rfl, rfl, fun c => ?_⟩
        rw [if_neg, Nat.add_zero]
        rintro ⟨hc, hcvalid⟩
        exact hvalid (Option.some.inj hc ▸ hcvalid)

/-- The loop writes once to each valid connection in the cells it goes over. -/
theorem broadcast_cells (len : Nat) (cells : List (Fin m)) (hcells : cells.Nodup)
    (w : SignalKWorld m) (hdistinct : SlotArray.Distinct w.clients.connections) :
    (cells.foldl (broadcastTurn len) w).clients = w.clients
      ∧ (cells.foldl (broadcastTurn len) w).tcp.server = w.tcp.server
      ∧ (cells.foldl (broadcastTurn len) w).tcp.nextId = w.tcp.nextId
      ∧ ∀ c, (cells.foldl (broadcastTurn len) w).tcp.output c = w.tcp.output c
        + if (∃ i ∈ cells, w.clients.connections i = some c) ∧ w.tcp.server.isValid c = true
          then len else 0 := by
  induction cells generalizing w with
  | nil => exact ⟨rfl, rfl, rfl, fun c => by simp⟩
  | cons i rest ih =>
      obtain ⟨hi, hrest⟩ := List.nodup_cons.mp hcells
      obtain ⟨hclients, hserver, hnext, houtput⟩ := broadcastTurn_spec len w i
      obtain ⟨hclients', hserver', hnext', houtput'⟩ :=
        ih hrest (broadcastTurn len w i) (by rwa [hclients])
      rw [List.foldl_cons]
      refine ⟨hclients'.trans hclients, hserver'.trans hserver, hnext'.trans hnext, fun c => ?_⟩
      rw [houtput' c, houtput c, hclients, hserver]
      by_cases hvalid : w.tcp.server.isValid c = true
      · by_cases hcell : w.clients.connections i = some c
        · have hnowhere : ¬∃ j ∈ rest, w.clients.connections j = some c := by
            rintro ⟨j, hj, hother⟩
            exact hi (hdistinct i j c hcell hother ▸ hj)
          simp [hvalid, hcell, hnowhere]
        · simp [hvalid, hcell]
      · simp [hvalid]

end Broadcast

/-! ## Runs -/

/-- Behind every event the tables agree, and the server has swept. -/
structure Settled (s : LineServer (SignalKWorld m) N n) : Prop extends Agree s where
  swept : ∀ c ∈ s.world.tcp.server.owned, s.world.tcp.server.isValid c = true

section Runs

variable {s t : LineServer (SignalKWorld m) N n}

theorem Agree.settle (h : Agree s) : Settled s.sweepClosed where
  toAgree := h.sweep
  swept c hc := by
    obtain ⟨k, hk, rfl⟩ := LinuxTcpServer.mem_owned.mp hc
    obtain ⟨hkept, hopen⟩ := List.mem_filter.mp hk
    refine LinuxTcpServer.isValid_iff.mpr ⟨k, hk, rfl, ?_⟩
    rw [h.server.marked k hkept] at hopen
    simpa using hopen

theorem Settled.acceptClient (h : Settled s) (hm : m ≤ 2 ^ 31) (hnm : n ≤ m)
    (peer : TcpPeerInfo) (opened : Bool) : Settled (s.acceptClient peer opened) := by
  unfold LineServer.acceptClient
  dsimp only
  split
  · exact h
  · split
    · exact h.toAgree.settle
    · split
      · exact h.toAgree.settle
      · exact (h.toAgree.sweep.onAccept hm hnm peer).settle

/-- **The step lemma.** -/
theorem signalKStep_settled (hm : m ≤ 2 ^ 31) (hnm : n ≤ m) {e : SignalKEvent} (h : Settled s)
    (hstep : s.signalKStep e = some t) : Settled t := by
  cases e with
  | accept peer opened =>
      obtain rfl := Option.some.inj hstep
      exact h.acceptClient hm hnm peer opened
  | readable c bytes turns =>
      obtain ⟨hvalid, hmap⟩ := Option.ite_none_right_eq_some.mp hstep
      obtain ⟨u, hdata, rfl⟩ := Option.map_eq_some_iff.mp hmap
      have hreceived : SameTables s (s.onTcp fun w => { w with
          input := Function.update w.input c (w.input c ++ bytes) }) :=
        ⟨rfl, fun _ => rfl, rfl, rfl, rfl⟩
      exact ((h.toAgree.same hreceived).onData hm hvalid hdata).settle
  | writable c pending =>
      obtain ⟨-, hsome⟩ := Option.ite_none_right_eq_some.mp hstep
      obtain rfl := Option.some.inj hsome
      have hdrained : SameTables s (s.onTcp fun w => { w with
          output := Function.update w.output c pending }) :=
        ⟨rfl, fun _ => rfl, rfl, rfl, rfl⟩
      exact ((h.toAgree.same hdrained).onWriteReady hm c).settle
  | failed c errorCode =>
      obtain ⟨hvalid, hsome⟩ := Option.ite_none_right_eq_some.mp hstep
      obtain rfl := Option.some.inj hsome
      exact (h.toAgree.leave hm (k := .onError c errorCode) (fun _ => rfl) hvalid).settle
  | eof c =>
      obtain ⟨hvalid, hsome⟩ := Option.ite_none_right_eq_some.mp hstep
      obtain rfl := Option.some.inj hsome
      exact (h.toAgree.leave hm (k := .onClose c) (fun _ => rfl) hvalid).settle
  | windUpdate len =>
      obtain rfl := Option.some.inj hstep
      have hsame : SameTables s { s with world := s.world.broadcastWindUpdate len } := by
        unfold SignalKWorld.broadcastWindUpdate
        split
        · exact .refl s
        · obtain ⟨hclients, hserver, hnext, -⟩ := broadcast_cells len.toNat (List.finRange m)
            (List.nodup_finRange m) s.world h.registry.distinct
          exact ⟨rfl, fun _ => rfl, hserver, hnext, hclients⟩
      refine ⟨h.toAgree.same hsame, ?_⟩
      rw [hsame.server]
      exact h.swept

theorem signalK_settled (N n m maxConnections : Nat) {options : TcpBackpressureOptions}
    (hclose : options.closeOnLimit = true) :
    Settled (signalK N n m maxConnections options) := by
  have hbound : (signalK N n m maxConnections options).bound = [] :=
    List.filterMap_eq_nil_iff.mpr fun _ _ => rfl
  refine ⟨⟨distinct_fresh N n options _, hclose, ⟨List.nodup_nil, List.forall_mem_nil _,
    List.forall_mem_nil _⟩, TcpConnectionRegistry.sound_init, fun c => ?_, fun c => ?_⟩,
    List.forall_mem_nil _⟩
  · rw [hbound]
    exact ⟨fun h => absurd h List.not_mem_nil, fun h => by cases h⟩
  · constructor
    · intro hc
      obtain ⟨i, hi⟩ := SlotArray.mem_members.mp hc
      cases hi
    · intro h
      cases h

/-- **The three tables agree** behind every event of every run, where the registry is no
smaller than the table of slots and the line server closes what has too much to send: the
registry has just the connections that the server owns, they are valid, and each of them
has its slot. So every wind update that fits its buffer goes once to each connection there
is, and to nothing else. -/
theorem tables_agree {maxConnections : Nat} {options : TcpBackpressureOptions}
    (hclose : options.closeOnLimit = true) (hnm : n ≤ m) (hm : m ≤ 2 ^ 31)
    {es : List SignalKEvent} {s : LineServer (SignalKWorld m) N n}
    (hrun : run signalKStep (signalK N n m maxConnections options) es = some s) :
    SlotArray.members s.world.clients.connections = s.world.tcp.server.owned.toFinset
      ∧ s.bound.Perm s.world.tcp.server.owned
      ∧ (∀ c ∈ s.world.tcp.server.owned, s.world.tcp.server.isValid c = true)
      ∧ s.world.clients.count = s.world.tcp.server.owned.length
      ∧ ∀ len : Int, 0 < len → len < 512 → ∀ c,
        (s.world.broadcastWindUpdate len).tcp.output c = s.world.tcp.output c
          + if c ∈ s.world.tcp.server.owned then len.toNat else 0 := by
  have hsettled : Settled s := run_invariant (fun _ _ _ h hs => signalKStep_settled hm hnm h hs)
    (signalK_settled N n m maxConnections hclose) hrun
  have howned (c : Nat) : c ∈ s.world.tcp.server.owned
      ↔ s.world.tcp.server.isValid c = true :=
    ⟨hsettled.swept c, LinuxTcpServer.owned_of_isValid⟩
  have hmembers : SlotArray.members s.world.clients.connections
      = s.world.tcp.server.owned.toFinset := by
    ext c
    rw [List.mem_toFinset, howned, hsettled.listed]
  refine ⟨hmembers, ?_, hsettled.swept, ?_, fun len hpos hfits c => ?_⟩
  · refine (List.perm_ext_iff_of_nodup hsettled.bound_nodup hsettled.server.ids).mpr fun c => ?_
    rw [howned, hsettled.bound]
  · rw [hsettled.registry.count_eq, hmembers,
      List.toFinset_card_of_nodup hsettled.server.ids]
  · obtain ⟨-, -, -, houtput⟩ := broadcast_cells len.toNat (List.finRange m)
      (List.nodup_finRange m) s.world hsettled.registry.distinct
    rw [SignalKWorld.broadcastWindUpdate, if_neg (by omega), houtput c]
    have hcell : (∃ i ∈ List.finRange m, s.world.clients.connections i = some c)
        ↔ s.world.tcp.server.isValid c = true := by
      rw [← hsettled.listed, SlotArray.mem_members]
      simp
    exact congrArg _ (if_congr (by rw [hcell, and_self, howned]) rfl rfl)

/-- Two slots: a third subscriber is turned away, a stalled one is closed in the callback of
the other, and an update goes to the one that is left. -/
def subscribers : List SignalKEvent :=
  [.accept {} true, .accept {} true, .accept {} true, .windUpdate 100, .writable 0 0,
    .windUpdate 100, .readable 0 [113, 10] 4]

/-- The limit is reached at once, at more than 150 bytes. -/
def stallOptions : TcpBackpressureOptions :=
  { enabled := true, highWaterBytes := 150, maxOverHighPolls := 1 }

theorem tables_agree_run : ∃ s : LineServer (SignalKWorld 2) 8 2,
    run signalKStep (signalK 8 2 2 16 stallOptions) subscribers = some s
      ∧ s.bound = [0] ∧ s.world.tcp.server.owned = [0] ∧ s.world.clients.count = 1
      ∧ s.bound.Perm s.world.tcp.server.owned := by
  obtain ⟨s, hs⟩ : ∃ s : LineServer (SignalKWorld 2) 8 2,
      run signalKStep (signalK 8 2 2 16 stallOptions) subscribers = some s := ⟨_, rfl⟩
  have hagree := tables_agree rfl (Nat.le_refl 2) (by decide) hs
  have hstate := Option.some.inj hs
  refine ⟨s, hs, ?_, ?_, ?_, hagree.2.1⟩ <;>
    · rw [← hstate]
      rfl

/-- In a smaller registry there is no room for the second connection: it is closed while it
has its slot, which goes on with a connection that was destroyed. -/
example : (run signalKStep (signalK 8 2 1 16 {} : LineServer (SignalKWorld 1) 8 2)
    [.accept {} true, .accept {} true]).map (fun s => (s.bound, s.world.tcp.server.owned))
      = some ([0, 1], [0]) := rfl

end Runs

end LineServer

end AsyncEventLoop
