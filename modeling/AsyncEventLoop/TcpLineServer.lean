import Mathlib.Data.List.Nodup
import Mathlib.Logic.Function.Basic
import AsyncEventLoop.LineReader
import AsyncEventLoop.Runs

/-!
# The TCP line server

`TcpLineServerHandler` keeps a table of slots, each with a stream that may be
bound to a connection, a backpressure monitor and a line reader. It is
written against two interfaces, `ITcpConnection` and
`ITcpLineServerHandler`; `ConnectionEnv` is what it calls of both, over a
world of any kind. Every call may change the world, so that a connection
may answer differently from one call to the next.

Besides the calls the log keeps each byte that is read, each binding of a
slot, and for every point at which a slot's connection is consulted the
connections bound there and the world they were bound in.
-/

namespace AsyncEventLoop

open Runs

/-! ## The interfaces -/

structure TcpPeerInfo where
  host : String := ""
  port : UInt16 := 0
  deriving DecidableEq

structure TcpBackpressureOptions where
  enabled : Bool := false
  highWaterBytes : Nat := 32768
  lowWaterBytes : Nat := 8192
  maxOverHighPolls : UInt32 := 3
  closeOnLimit : Bool := true

structure TcpBackpressureInfo where
  pendingBytes : Nat := 0
  highWaterBytes : Nat := 0
  lowWaterBytes : Nat := 0
  overHighPolls : UInt32 := 0
  closeOnLimit : Bool := false
  deriving DecidableEq

structure TcpBackpressureMonitor where
  options : TcpBackpressureOptions := {}
  overHighPolls : UInt32 := 0
  reported : Bool := false

def TcpBackpressureMonitor.reset (m : TcpBackpressureMonitor) : TcpBackpressureMonitor :=
  { m with overHighPolls := 0, reported := false }

/-- The part of `check` between the two calls of the connection, on `pending`
bytes of output. -/
def TcpBackpressureMonitor.count (m : TcpBackpressureMonitor) (pending : Nat) :
    TcpBackpressureMonitor :=
  if pending > m.options.highWaterBytes then
    { m with
      overHighPolls :=
        if m.overHighPolls < 0xffffffff then m.overHighPolls + 1 else m.overHighPolls }
  else if pending ≤ m.options.lowWaterBytes then { m with overHighPolls := 0, reported := false }
  else m

/-- The limit is reached and has not been reported. -/
def TcpBackpressureMonitor.due (m : TcpBackpressureMonitor) : Bool :=
  let triggerPolls := if m.options.maxOverHighPolls = 0 then 1 else m.options.maxOverHighPolls
  decide (m.overHighPolls ≥ triggerPolls) && !m.reported

/-- The calls of `ITcpLineServerHandler`. A connection is known by its address. -/
inductive AppCall where
  | onAccept (connection : Nat) (peer : TcpPeerInfo)
  | onLine (connection : Nat) (line : List UInt8)
  | onClose (connection : Nat)
  | onError (connection : Nat) (errorCode : Int)
  | onTooManyConnections (connection : Nat)
  | onBackpressure (connection : Nat) (info : TcpBackpressureInfo)
  deriving DecidableEq

/-- `read` is a read of one byte, with none for a result of 0 or -1. -/
structure ConnectionEnv (W : Type) where
  valid : Nat → W → Bool × W
  inputSize : Nat → W → Nat × W
  outputSize : Nat → W → Nat × W
  read : Nat → W → Option UInt8 × W
  close : Nat → W → W
  app : AppCall → W → W

/-! ## The handler -/

/-- `TcpLineServerHandler::Slot`; `connection` is that of the slot's stream. -/
structure LineSlot (BufferSize : Nat) where
  connection : Option Nat := none
  backpressure : TcpBackpressureMonitor
  reader : LineProtocolReader BufferSize

inductive ServerNote (W : Type) where
  | consulted (bound : List Nat) (world : W)
  | called (call : AppCall) (bound : List Nat) (world : W)
  | admitted (connection : Nat)
  | read (connection : Nat) (byte : UInt8)

/-- `TcpLineServerHandler`, with the world it runs in. Only the slots below
`MaxConnections` are ever used. -/
structure LineServer (W : Type) (BufferSize MaxConnections : Nat) where
  options : TcpBackpressureOptions
  slots : Nat → LineSlot BufferSize
  world : W
  log : List (ServerNote W) := []

namespace LineServer

variable {W : Type} {N n : Nat}

/-- A freshly constructed handler. -/
def fresh (N n : Nat) (options : TcpBackpressureOptions) (world : W) : LineServer W N n where
  options := options
  slots _ := { backpressure := { options := options }, reader := .fresh N {} }
  world := world

def putSlot (s : LineServer W N n) (i : Nat) (slot : LineSlot N) : LineServer W N n :=
  { s with slots := Function.update s.slots i slot }

def note (s : LineServer W N n) (entry : ServerNote W) : LineServer W N n :=
  { s with log := entry :: s.log }

/-- The connections of the slots. -/
def bound (s : LineServer W N n) : List Nat :=
  (List.range n).filterMap fun i => (s.slots i).connection

def activeConnections (s : LineServer W N n) : Nat :=
  (List.range n).countP fun i => (s.slots i).connection.isSome

def consult (s : LineServer W N n) : LineServer W N n := s.note (.consulted s.bound s.world)

/-- A call of a slot's connection. -/
def ask {α : Type} (call : W → α × W) (s : LineServer W N n) : α × LineServer W N n :=
  let s := s.consult
  let r := call s.world
  (r.1, { s with world := r.2 })

def find (s : LineServer W N n) (connection : Nat) : Option Nat :=
  (List.range n).find? fun i => (s.slots i).connection = some connection

def free (s : LineServer W N n) : Option Nat :=
  (List.range n).find? fun i => (s.slots i).connection.isNone

def bind (s : LineServer W N n) (i connection : Nat) : LineServer W N n :=
  let slot := s.slots i
  (s.putSlot i { slot with
    connection := some connection, backpressure := slot.backpressure.reset }).note
      (.admitted connection)

/-- The slot of a connection, if need be a free one that is bound to it. -/
def acquire (s : LineServer W N n) (connection : Nat) : Option Nat × LineServer W N n :=
  let s := s.consult
  match s.find connection with
  | some i => (some i, s)
  | none =>
      match s.free with
      | some i => (some i, s.bind i connection)
      | none => (none, s)

def unbind (s : LineServer W N n) (i : Nat) : LineServer W N n :=
  let slot := s.slots i
  s.putSlot i { slot with connection := none, backpressure := slot.backpressure.reset }

def release (s : LineServer W N n) (connection : Nat) : LineServer W N n :=
  let s := s.consult
  match s.find connection with
  | some i => s.unbind i
  | none => s

variable (env : ConnectionEnv W)

def call (s : LineServer W N n) (k : AppCall) : LineServer W N n :=
  let s := s.note (.called k s.bound s.world)
  { s with world := env.app k s.world }

def handleLine (s : LineServer W N n) (i : Nat) (line : List UInt8) : LineServer W N n :=
  match (s.slots i).connection with
  | none => s
  | some connection =>
      let r := s.ask (env.valid connection)
      if r.1 then r.2.call env (.onLine connection line) else r.2

/-- `readable` of the slot's stream. -/
def readable (s : LineServer W N n) (i : Nat) : Bool × LineServer W N n :=
  match (s.slots i).connection with
  | none => (false, s)
  | some connection =>
      let r := s.ask (env.valid connection)
      if r.1 then
        let r := r.2.ask (env.inputSize connection)
        (decide (r.1 > 0), r.2)
      else (false, r.2)

/-- `read` of the slot's stream. -/
def read (s : LineServer W N n) (i : Nat) : Option UInt8 × LineServer W N n :=
  match (s.slots i).connection with
  | none => (none, s)
  | some connection =>
      let r := s.ask (env.read connection)
      (r.1, match r.1 with
        | some byte => r.2.note (.read connection byte)
        | none => r.2)

/-- The reader of slot `i` takes one byte. -/
def consume (s : LineServer W N n) (i : Nat) (byte : UInt8) : LineServer W N n :=
  let step := (s.slots i).reader.readByte byte
  let s := s.putSlot i { s.slots i with reader := step.1 }
  match step.2 with
  | some line => s.handleLine env i line
  | none => s

/-- `poll` of the reader of slot `i`. The loop ends when the stream says so; here
it has to within `turns` turns. -/
def poll (i : Nat) : (turns : Nat) → LineServer W N n → Option (LineServer W N n)
  | 0, _ => none
  | turns + 1, s =>
      let ready := s.readable env i
      if !ready.1 then some ready.2
      else
        let r := ready.2.read env i
        match r.1 with
        | none => some r.2
        | some byte => poll i turns (r.2.consume env i byte)

/-- `fill_info`. -/
def fillInfo (s : LineServer W N n) (m : TcpBackpressureMonitor) (connection : Nat) :
    TcpBackpressureInfo × LineServer W N n :=
  let valid := s.ask (env.valid connection)
  let pending :=
    if valid.1 then valid.2.ask (env.outputSize connection) else (0, valid.2)
  ({ pendingBytes := pending.1
     highWaterBytes := m.options.highWaterBytes
     lowWaterBytes := m.options.lowWaterBytes
     overHighPolls := m.overHighPolls
     closeOnLimit := m.options.closeOnLimit }, pending.2)

/-- `flag && connection.valid()`. -/
def andValid (s : LineServer W N n) (flag : Bool) (connection : Nat) :
    Bool × LineServer W N n :=
  if flag then s.ask (env.valid connection) else (false, s)

/-- `check` of the monitor of slot `i`, with the information it fills in. -/
def check (s : LineServer W N n) (i connection : Nat) :
    (Bool × TcpBackpressureInfo) × LineServer W N n :=
  let m := (s.slots i).backpressure
  let valid := s.andValid env m.options.enabled connection
  if !valid.1 then
    let info := valid.2.fillInfo env m connection
    ((false, info.1), info.2)
  else
    let pending := valid.2.ask (env.outputSize connection)
    let m := m.count pending.1
    let info := pending.2.fillInfo env m connection
    let s := info.2
    ((m.due, info.1),
      s.putSlot i { s.slots i with backpressure := { m with reported := m.reported || m.due } })

def closeConnection (s : LineServer W N n) (connection : Nat) : LineServer W N n :=
  let s := s.consult
  { s with world := env.close connection s.world }

/-- `if (close_on_limit && connection->valid()) connection->close()`. -/
def closeOnLimit (s : LineServer W N n) (connection : Nat) : LineServer W N n :=
  let closing := s.andValid env s.options.closeOnLimit connection
  if closing.1 then closing.2.closeConnection env connection else closing.2

/-- What `check_backpressure` does once the limit is reached. -/
def limit (s : LineServer W N n) (i connection : Nat) (info : TcpBackpressureInfo) :
    LineServer W N n :=
  let s := (s.call env (.onBackpressure connection info)).closeOnLimit env connection
  let valid := s.ask (env.valid connection)
  if !valid.1 then valid.2.unbind i else valid.2

def checkBackpressure (s : LineServer W N n) (i : Nat) : LineServer W N n :=
  match (s.slots i).connection with
  | none => s
  | some connection =>
      let valid := s.ask (env.valid connection)
      if !valid.1 then valid.2
      else
        let hit := valid.2.check env i connection
        if !hit.1.1 then hit.2 else hit.2.limit env i connection hit.1.2

def checkAllBackpressure (s : LineServer W N n) : LineServer W N n :=
  (List.range n).foldl (checkBackpressure env) s

/-! ## The server's events -/

def onAccept (s : LineServer W N n) (connection : Nat) (peer : TcpPeerInfo) :
    LineServer W N n :=
  let slot := s.acquire connection
  match slot.1 with
  | none => slot.2.call env (.onTooManyConnections connection)
  | some i =>
      let s := slot.2
      let s := s.putSlot i { s.slots i with backpressure := (s.slots i).backpressure.reset }
      s.call env (.onAccept connection peer)

def onData (s : LineServer W N n) (connection turns : Nat) : Option (LineServer W N n) :=
  let slot := s.acquire connection
  match slot.1 with
  | none => some (slot.2.call env (.onTooManyConnections connection))
  | some i => (slot.2.poll env i turns).map (checkAllBackpressure env)

def onWriteReady (s : LineServer W N n) (connection : Nat) : LineServer W N n :=
  let s := s.consult
  match s.find connection with
  | some i => s.checkBackpressure env i
  | none => s

def onClose (s : LineServer W N n) (connection : Nat) : LineServer W N n :=
  (s.call env (.onClose connection)).release connection

def onError (s : LineServer W N n) (connection : Nat) (errorCode : Int) : LineServer W N n :=
  (s.call env (.onError connection errorCode)).release connection

/-! ## The slots after an operation -/

@[simp] theorem putSlot_self (s : LineServer W N n) (i : Nat) (slot : LineSlot N) :
    (s.putSlot i slot).slots i = slot := by
  simp [putSlot]

theorem putSlot_of_ne (s : LineServer W N n) {i j : Nat} (h : j ≠ i) (slot : LineSlot N) :
    (s.putSlot i slot).slots j = s.slots j := by
  simp [putSlot, h]

@[simp] theorem bind_self (s : LineServer W N n) (i connection : Nat) :
    (s.bind i connection).slots i = { s.slots i with
      connection := some connection, backpressure := (s.slots i).backpressure.reset } :=
  putSlot_self s i _

theorem bind_of_ne (s : LineServer W N n) {i j : Nat} (h : j ≠ i) (connection : Nat) :
    (s.bind i connection).slots j = s.slots j :=
  putSlot_of_ne s h _

/-- The three ways `acquire` can go. -/
inductive Acquires (s : LineServer W N n) (connection : Nat) :
    Option Nat → LineServer W N n → Prop where
  | found (i : Nat) (hfind : s.find connection = some i) :
      Acquires s connection (some i) s.consult
  | bound (i : Nat) (hfind : s.find connection = none) (hfree : s.free = some i) :
      Acquires s connection (some i) (s.consult.bind i connection)
  | full (hfind : s.find connection = none) (hfree : s.free = none) :
      Acquires s connection none s.consult

theorem acquire_spec (s : LineServer W N n) (connection : Nat) :
    Acquires s connection (s.acquire connection).1 (s.acquire connection).2 := by
  have hfound : s.consult.find connection = s.find connection := rfl
  have hempty : s.consult.free = s.free := rfl
  unfold acquire
  simp only [hfound, hempty]
  cases hfind : s.find connection with
  | some i => exact .found i hfind
  | none =>
      cases hfree : s.free with
      | some i => exact .bound i hfind hfree
      | none => exact .full hfind hfree

theorem find_some {s : LineServer W N n} {connection i : Nat}
    (h : s.find connection = some i) : (s.slots i).connection = some connection := by
  simpa using List.find?_some h

theorem find_none {s : LineServer W N n} {connection : Nat} (h : s.find connection = none)
    {i : Nat} (hi : i < n) : (s.slots i).connection ≠ some connection := by
  intro heq
  have hnot := List.find?_eq_none.mp h i (List.mem_range.mpr hi)
  exact hnot (by simpa using heq)

theorem free_some {s : LineServer W N n} {i : Nat} (h : s.free = some i) :
    i < n ∧ (s.slots i).connection = none := by
  refine ⟨List.mem_range.mp (List.mem_of_find?_eq_some h), ?_⟩
  simpa using List.find?_some h

theorem bind_connection {s : LineServer W N n} {i j connection c : Nat}
    (h : ((s.bind i connection).slots j).connection = some c) :
    (j = i ∧ c = connection) ∨ (j ≠ i ∧ (s.slots j).connection = some c) := by
  by_cases hij : j = i
  · subst hij
    rw [bind_self] at h
    exact Or.inl ⟨rfl, (Option.some.inj h).symm⟩
  · rw [bind_of_ne s hij] at h
    exact Or.inr ⟨hij, h⟩

theorem unbind_connection {s : LineServer W N n} {i j c : Nat}
    (h : ((s.unbind i).slots j).connection = some c) :
    j ≠ i ∧ (s.slots j).connection = some c := by
  by_cases hij : j = i
  · subst hij
    rw [unbind, putSlot_self] at h
    cases h
  · exact ⟨hij, by simpa [unbind, putSlot_of_ne s hij] using h⟩

/-! ## The table -/

/-- Only slots of the table are bound, and no two of them to one connection. -/
structure Distinct (s : LineServer W N n) : Prop where
  range : ∀ i c, (s.slots i).connection = some c → i < n
  one : ∀ i j c, (s.slots i).connection = some c → (s.slots j).connection = some c → i = j

theorem distinct_fresh (N n : Nat) (options : TcpBackpressureOptions) (world : W) :
    Distinct (fresh N n options world) :=
  ⟨nofun, nofun⟩

/-- Connections at most go. -/
theorem Distinct.of_sub {s s' : LineServer W N n} (h : Distinct s)
    (hsub : ∀ i c, (s'.slots i).connection = some c → (s.slots i).connection = some c) :
    Distinct s' :=
  ⟨fun i c hi => h.range i c (hsub i c hi),
    fun i j c hi hj => h.one i j c (hsub i c hi) (hsub j c hj)⟩

theorem Distinct.not_bound {s : LineServer W N n} (h : Distinct s) {connection : Nat}
    (hfind : s.find connection = none) (i : Nat) :
    (s.slots i).connection ≠ some connection :=
  fun hi => find_none hfind (h.range i connection hi) hi

theorem Distinct.bind {s : LineServer W N n} (h : Distinct s) {connection i : Nat}
    (hfind : s.find connection = none) (hfree : s.free = some i) :
    Distinct (s.bind i connection) := by
  refine ⟨?_, ?_⟩
  · intro j c hj
    rcases bind_connection hj with ⟨rfl, -⟩ | ⟨-, hj⟩
    · exact (free_some hfree).1
    · exact h.range j c hj
  · intro j k c hj hk
    rcases bind_connection hj with ⟨rfl, rfl⟩ | ⟨-, hj'⟩ <;>
      rcases bind_connection hk with ⟨rfl, hc⟩ | ⟨-, hk'⟩
    · rfl
    · exact absurd hk' (h.not_bound hfind k)
    · exact absurd (hc ▸ hj') (h.not_bound hfind j)
    · exact h.one j k c hj' hk'

theorem mem_bound {s : LineServer W N n} {c : Nat} :
    c ∈ s.bound ↔ ∃ i < n, (s.slots i).connection = some c := by
  simp [bound, List.mem_filterMap]

theorem mem_bound_bind {s : LineServer W N n} {i connection c : Nat} (hfree : s.free = some i) :
    c ∈ (s.bind i connection).bound ↔ c = connection ∨ c ∈ s.bound := by
  obtain ⟨hi, hempty⟩ := free_some hfree
  rw [mem_bound, mem_bound]
  constructor
  · rintro ⟨j, hj, hc⟩
    rcases bind_connection hc with ⟨-, heq⟩ | ⟨-, hc⟩
    · exact Or.inl heq
    · exact Or.inr ⟨j, hj, hc⟩
  · rintro (rfl | ⟨j, hj, hc⟩)
    · exact ⟨i, hi, by rw [bind_self]⟩
    · have hij : j ≠ i := by
        rintro rfl
        rw [hempty] at hc
        cases hc
      exact ⟨j, hj, by rw [bind_of_ne s hij, hc]⟩

theorem Distinct.mem_bound_unbind {s : LineServer W N n} (h : Distinct s) {i connection c : Nat}
    (hi : (s.slots i).connection = some connection) :
    c ∈ (s.unbind i).bound ↔ c ≠ connection ∧ c ∈ s.bound := by
  rw [mem_bound, mem_bound]
  constructor
  · rintro ⟨j, hj, hc⟩
    obtain ⟨hij, hc⟩ := unbind_connection hc
    refine ⟨?_, j, hj, hc⟩
    rintro rfl
    exact hij (h.one j i c hc hi)
  · rintro ⟨hne, j, hj, hc⟩
    have hij : j ≠ i := by
      rintro rfl
      exact hne (Option.some.inj (hc.symm.trans hi))
    exact ⟨j, hj, by rw [unbind, putSlot_of_ne s hij, hc]⟩

theorem Distinct.bound_nodup {s : LineServer W N n} (h : Distinct s) : s.bound.Nodup :=
  List.Nodup.filterMap (fun i j c hi hj => h.one i j c hi hj) List.nodup_range

theorem activeConnections_eq (s : LineServer W N n) : s.activeConnections = s.bound.length :=
  List.length_filterMap_eq_countP.symm

/-! ## What only looks -/

/-- From one state to another by asking connections about themselves, and by
counting in the monitors. -/
inductive Looks : LineServer W N n → LineServer W N n → Prop where
  | refl (s : LineServer W N n) : Looks s s
  | valid (connection : Nat) {s t : LineServer W N n} (h : Looks s t) :
      Looks s (t.ask (env.valid connection)).2
  | inputSize (connection : Nat) {s t : LineServer W N n} (h : Looks s t) :
      Looks s (t.ask (env.inputSize connection)).2
  | outputSize (connection : Nat) {s t : LineServer W N n} (h : Looks s t) :
      Looks s (t.ask (env.outputSize connection)).2
  | monitor (i : Nat) (m : TcpBackpressureMonitor) {s t : LineServer W N n} (h : Looks s t) :
      Looks s (t.putSlot i { t.slots i with backpressure := m })

variable {env}

variable (env) in
theorem readable_looks (s : LineServer W N n) (i : Nat) : Looks env s (s.readable env i).2 := by
  unfold readable
  split
  · exact .refl s
  · rename_i connection _
    have hvalid : Looks env s (s.ask (env.valid connection)).2 := .valid connection (.refl s)
    dsimp only
    split
    · exact .inputSize connection hvalid
    · exact hvalid

theorem Looks.fillInfo {s t : LineServer W N n} (h : Looks env s t) (m : TcpBackpressureMonitor)
    (connection : Nat) : Looks env s (t.fillInfo env m connection).2 := by
  unfold LineServer.fillInfo
  dsimp only
  split
  · exact .outputSize connection (.valid connection h)
  · exact .valid connection h

theorem Looks.andValid {s t : LineServer W N n} (h : Looks env s t) (flag : Bool)
    (connection : Nat) : Looks env s (t.andValid env flag connection).2 := by
  unfold LineServer.andValid
  split
  · exact .valid connection h
  · exact h

variable (env) in
theorem check_looks (s : LineServer W N n) (i connection : Nat) :
    Looks env s (s.check env i connection).2 := by
  have hvalid : Looks env s (s.andValid env (s.slots i).backpressure.options.enabled
      connection).2 := (Looks.refl s).andValid _ connection
  unfold check
  dsimp only
  split
  · exact hvalid.fillInfo (s.slots i).backpressure connection
  · have hpending : Looks env s ((s.andValid env (s.slots i).backpressure.options.enabled
        connection).2.ask (env.outputSize connection)).2 := .outputSize connection hvalid
    exact .monitor i _ (hpending.fillInfo ((s.slots i).backpressure.count _) connection)

end LineServer

end AsyncEventLoop
