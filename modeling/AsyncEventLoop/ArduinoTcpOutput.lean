import AsyncEventLoop.RingArray
import AsyncEventLoop.Runs

/-!
# The output queue of an Arduino TCP connection

`ArduinoWiFiTcpConnection` keeps what it has accepted and not yet handed to
the `WiFiClient` in a ring of 1024 bytes. `flush_output` hands over pieces
that do not cross the end of the array, `push_output` copies in such pieces.
A copy or a write that left the array is `none` here, and so is a loop that
does not end: that neither happens is part of the result.

`TxState` has, besides the connection and the world the client runs in, what
was handed over and what was accepted so far, and both for every point at
which the client was called.
-/

namespace AsyncEventLoop

open Runs RingArray

/-- What a connection uses of a `WiFiClient` for its output. Any call may change
the world; a write takes at most what it is given. -/
structure WiFiClient (W : Type) where
  connected : W → Bool × W
  availableForWrite : W → Int × W
  write : List UInt8 → W → Nat × W
  write_le : ∀ bytes world, (write bytes world).1 ≤ bytes.length

def txCapacity : Nat := 1024

def txFlushChunk : Nat := 64

/-- `ArduinoWiFiTcpConnection`, as far as its output goes. -/
structure ArduinoWiFiTcpConnection where
  active : Bool := false
  tx : Vector UInt8 txCapacity
  txHead : Nat := 0
  txSize : Nat := 0

namespace ArduinoWiFiTcpConnection

/-- `attach`; what an earlier session left in the ring stays there. -/
def attach (c : ArduinoWiFiTcpConnection) : ArduinoWiFiTcpConnection :=
  { c with active := true, txHead := 0, txSize := 0 }

def txTail (c : ArduinoWiFiTcpConnection) : Nat := (c.txHead + c.txSize) % txCapacity

def txFree (c : ArduinoWiFiTcpConnection) : Nat := txCapacity - c.txSize

def contiguousOutputSize (c : ArduinoWiFiTcpConnection) : Nat :=
  if c.txSize = 0 then 0
  else
    let untilEnd := txCapacity - c.txHead
    if c.txSize < untilEnd then c.txSize else untilEnd

/-- The loop of `push_output`, which has pushed `pushed` bytes so far. -/
def pushLoop (src : List UInt8) : (turns : Nat) → (pushed : Nat) →
    ArduinoWiFiTcpConnection → Option (Nat × ArduinoWiFiTcpConnection)
  | 0, _, _ => none
  | turns + 1, pushed, c =>
      if pushed < src.length ∧ c.txFree > 0 then
        let contiguousFree := txCapacity - c.txTail
        let contiguousFree := if contiguousFree > c.txFree then c.txFree else contiguousFree
        let n := src.length - pushed
        let n := if n > contiguousFree then contiguousFree else n
        match blit c.tx c.txTail ((src.drop pushed).take n) with
        | none => none
        | some tx => pushLoop src turns (pushed + n) { c with tx := tx, txSize := c.txSize + n }
      else some (pushed, c)

def pushOutput (c : ArduinoWiFiTcpConnection) (src : List UInt8) :
    Option (Nat × ArduinoWiFiTcpConnection) :=
  c.pushLoop src (src.length + 1) 0

def popOutput (c : ArduinoWiFiTcpConnection) (len : Nat) : ArduinoWiFiTcpConnection :=
  let len := if len > c.txSize then c.txSize else len
  let size := c.txSize - len
  { c with txHead := if size = 0 then 0 else (c.txHead + len) % txCapacity, txSize := size }

/-- The bytes in the ring. -/
def queued (c : ArduinoWiFiTcpConnection) : List UInt8 := contents c.tx c.txHead c.txSize

end ArduinoWiFiTcpConnection

/-- The connection, and the bytes handed over and accepted so far. -/
structure TxPoint where
  connection : ArduinoWiFiTcpConnection
  sent : List UInt8 := []
  accepted : List UInt8 := []

structure TxState (W : Type) extends TxPoint where
  world : W
  points : List TxPoint := []

namespace TxState

variable {W : Type}

def ask {α : Type} (call : W → α × W) (s : TxState W) : α × TxState W :=
  let r := call s.world
  (r.1, { s with world := r.2, points := s.toTxPoint :: s.points })

variable (client : WiFiClient W) (esp : Bool)

/-- How much of `n` bytes is to be written next, if any. `esp` says that the
client is asked, as on the ESP boards. -/
def chunk (s : TxState W) (n : Nat) : Option Nat × TxState W :=
  if esp then
    let writable := s.ask client.availableForWrite
    (if writable.1 ≤ 0 then none
      else some (if n > writable.1.toNat then writable.1.toNat else n), writable.2)
  else (some (if n > txFlushChunk then txFlushChunk else n), s)

/-- `client_.write` of the first `n` bytes of the ring. -/
def writeClient (s : TxState W) (n : Nat) : Option (Nat × TxState W) :=
  (slice s.connection.tx s.connection.txHead n).map fun bytes =>
    let written := s.ask (client.write bytes)
    (written.1, { written.2 with sent := written.2.sent ++ bytes.take written.1 })

def pop (s : TxState W) (len : Nat) : TxState W :=
  { s with connection := s.connection.popOutput len }

/-- The loop of `flush_output`, which has flushed `flushed` bytes so far. -/
def flushLoop : (turns : Nat) → (flushed : Nat) → TxState W → Option (Nat × TxState W)
  | 0, _, _ => none
  | turns + 1, flushed, s =>
      if s.connection.txSize = 0 then some (flushed, s)
      else
        let connected := s.ask client.connected
        if !connected.1 then some (flushed, connected.2)
        else if connected.2.connection.contiguousOutputSize = 0 then some (flushed, connected.2)
        else
          let chunk := connected.2.chunk client esp connected.2.connection.contiguousOutputSize
          match chunk.1 with
          | none => some (flushed, chunk.2)
          | some n =>
              match chunk.2.writeClient client n with
              | none => none
              | some written =>
                  if written.1 = 0 then some (flushed, written.2)
                  else if written.1 < n then
                    some (flushed + written.1, written.2.pop written.1)
                  else flushLoop turns (flushed + written.1) (written.2.pop written.1)

def flushOutput (s : TxState W) : Option (Nat × TxState W) :=
  if !s.connection.active || s.connection.txSize = 0 then some (0, s)
  else s.flushLoop client esp (s.connection.txSize + 1) 0

def write (s : TxState W) (src : List UInt8) : Option (Nat × TxState W) :=
  if !s.connection.active || src.length = 0 then some (0, s)
  else
    (s.flushOutput client esp).bind fun flushed =>
      (flushed.2.connection.pushOutput src).map fun pushed =>
        (pushed.1, { flushed.2 with
          connection := pushed.2
          accepted := flushed.2.accepted ++ src.take pushed.1 })

end TxState

/-- The calls of a connection's owner. -/
inductive OutputCall (W : Type) where
  | write (src : List UInt8)
  | flushOutput
  | outside (world : W)

namespace TxState

variable {W : Type} (client : WiFiClient W) (esp : Bool)

/-- A connection that has just been attached. -/
def attached (c : ArduinoWiFiTcpConnection) (world : W) : TxState W :=
  { connection := c.attach, world := world }

def step (s : TxState W) : OutputCall W → Option (TxState W)
  | .write src => (s.write client esp src).map Prod.snd
  | .flushOutput => (s.flushOutput client esp).map Prod.snd
  | .outside world => some { s with world := world }

end TxState

/-! ## The ring -/

namespace ArduinoWiFiTcpConnection

/-- The ring is inside the array. -/
structure InRing (c : ArduinoWiFiTcpConnection) : Prop where
  head_lt : c.txHead < txCapacity
  size_le : c.txSize ≤ txCapacity

/-- From `c`, the bytes `bs` have been put at the end of the ring. -/
structure Pushed (c c' : ArduinoWiFiTcpConnection) (bs : List UInt8) : Prop where
  active : c'.active = c.active
  txHead : c'.txHead = c.txHead
  txSize : c'.txSize = c.txSize + bs.length
  queued : c'.queued = c.queued ++ bs

theorem Pushed.trans {a b c : ArduinoWiFiTcpConnection} {bs cs : List UInt8}
    (h : Pushed a b bs) (h' : Pushed b c cs) : Pushed a c (bs ++ cs) := by
  refine ⟨h'.active.trans h.active, h'.txHead.trans h.txHead, ?_, ?_⟩
  · rw [h'.txSize, h.txSize, List.length_append, Nat.add_assoc]
  · rw [h'.queued, h.queued, List.append_assoc]

theorem Pushed.inRing {c c' : ArduinoWiFiTcpConnection} {bs : List UInt8} (h : InRing c)
    (hp : Pushed c c' bs) (hfree : bs.length ≤ c.txFree) : InRing c' := by
  have hsize := hp.txSize
  have hle := h.size_le
  unfold txFree at hfree
  exact ⟨hp.txHead ▸ h.head_lt, by omega⟩

/-- One copy, of bytes that fit in front of the end of the array. -/
theorem InRing.blit {c : ArduinoWiFiTcpConnection} (h : InRing c) (bs : List UInt8)
    (hend : c.txTail + bs.length ≤ txCapacity) (hfree : bs.length ≤ c.txFree) :
    ∃ tx, RingArray.blit c.tx c.txTail bs = some tx
      ∧ Pushed c { c with tx := tx, txSize := c.txSize + bs.length } bs := by
  have hsize : c.txSize + bs.length ≤ txCapacity := by
    have hle := h.size_le
    unfold txFree at hfree
    omega
  have hcopy : RingArray.blit c.tx c.txTail bs = some _ := if_pos hend
  exact ⟨_, hcopy, rfl, rfl, rfl, contents_blit hcopy hsize⟩

/-- The loop of `push_output` ends, and it pushes as much as there is room for. -/
theorem pushLoop_spec (src : List UInt8) {turns : Nat} (pushed : Nat)
    {c : ArduinoWiFiTcpConnection} (h : InRing c) (hpushed : pushed ≤ src.length)
    (hturns : src.length - pushed < turns) :
    ∃ c', c.pushLoop src turns pushed
        = some (pushed + min (src.length - pushed) c.txFree, c')
      ∧ Pushed c c' ((src.drop pushed).take (min (src.length - pushed) c.txFree)) := by
  induction turns generalizing pushed c with
  | zero => omega
  | succ turns ih =>
      unfold pushLoop
      by_cases hmore : pushed < src.length ∧ c.txFree > 0
      · rw [if_pos hmore]
        dsimp only
        have htail : c.txTail < txCapacity := Nat.mod_lt _ (Nat.zero_lt_of_lt h.head_lt)
        -- the length of this copy
        generalize hn : (if src.length - pushed > (if txCapacity - c.txTail > c.txFree
            then c.txFree else txCapacity - c.txTail)
          then (if txCapacity - c.txTail > c.txFree then c.txFree else txCapacity - c.txTail)
          else src.length - pushed) = n
        have hbounds : 0 < n ∧ n ≤ src.length - pushed ∧ n ≤ txCapacity - c.txTail
            ∧ n ≤ c.txFree := by
          subst hn
          split_ifs <;> omega
        obtain ⟨hpos, hrest, hend, hfree⟩ := hbounds
        have hlength : ((src.drop pushed).take n).length = n := by
          rw [List.length_take, List.length_drop]
          omega
        obtain ⟨tx, hcopy, hfirst⟩ := h.blit ((src.drop pushed).take n)
          (by rw [hlength]; omega) (by rw [hlength]; omega)
        rw [hlength] at hfirst
        rw [hcopy]
        have hfreed : ({ c with tx := tx, txSize := c.txSize + n } :
            ArduinoWiFiTcpConnection).txFree = c.txFree - n := Nat.sub_add_eq _ _ _
        have hring := hfirst.inRing h (by rw [hlength]; exact hfree)
        obtain ⟨c', hloop, hothers⟩ := ih (pushed + n) hring (by omega) (by omega)
        rw [hfreed] at hloop hothers
        have hcount : n + min (src.length - (pushed + n)) (c.txFree - n)
            = min (src.length - pushed) c.txFree := by omega
        refine ⟨c', ?_, ?_⟩
        · dsimp only
          rw [hloop, Nat.add_assoc, hcount]
        · have hboth := hfirst.trans hothers
          rwa [← List.drop_drop, ← List.take_add, hcount] at hboth
      · rw [if_neg hmore]
        have hnone : min (src.length - pushed) c.txFree = 0 := by omega
        rw [hnone]
        exact ⟨c, rfl, rfl, rfl, rfl, by rw [List.take_zero, List.append_nil]⟩

theorem pushOutput_spec {c : ArduinoWiFiTcpConnection} (h : InRing c) (src : List UInt8) :
    ∃ c', c.pushOutput src = some (min src.length c.txFree, c')
      ∧ Pushed c c' (src.take (min src.length c.txFree)) := by
  obtain ⟨c', hloop, hpushed⟩ := pushLoop_spec src 0 h (Nat.zero_le _) (Nat.lt_succ_self _)
  rw [Nat.sub_zero, Nat.zero_add] at hloop
  rw [Nat.sub_zero, List.drop_zero] at hpushed
  exact ⟨c', hloop, hpushed⟩

theorem popOutput_spec {c : ArduinoWiFiTcpConnection} (h : InRing c) {len : Nat}
    (hlen : len ≤ c.txSize) : InRing (c.popOutput len)
      ∧ (c.popOutput len).queued = c.queued.drop len
      ∧ (c.popOutput len).txSize = c.txSize - len := by
  have hclip : (if len > c.txSize then c.txSize else len) = len := if_neg (by omega)
  have hpos : 0 < txCapacity := Nat.zero_lt_of_lt h.head_lt
  unfold popOutput queued
  simp only [hclip]
  by_cases hempty : c.txSize - len = 0
  · simp only [hempty, if_pos]
    refine ⟨⟨hpos, Nat.zero_le _⟩, ?_, trivial⟩
    rw [contents_zero, List.drop_eq_nil_of_le]
    rw [length_contents _ _ h.size_le]
    omega
  · simp only [hempty, if_false]
    have hsize : c.txSize - len ≤ txCapacity := (Nat.sub_le _ _).trans h.size_le
    exact ⟨⟨Nat.mod_lt _ hpos, hsize⟩, contents_drop c.tx c.txHead h.size_le hlen, trivial⟩

theorem contiguousOutputSize_le (c : ArduinoWiFiTcpConnection) :
    c.contiguousOutputSize ≤ c.txSize ∧ c.contiguousOutputSize ≤ txCapacity - c.txHead := by
  unfold contiguousOutputSize
  dsimp only
  split_ifs <;> omega

end ArduinoWiFiTcpConnection

/-! ## The queue -/

open ArduinoWiFiTcpConnection

/-- What was accepted was handed over, or is in the ring. -/
structure TxPoint.Fifo (p : TxPoint) : Prop extends InRing p.connection where
  order : p.sent ++ p.connection.queued = p.accepted

namespace TxState

variable {W : Type}

structure Sound (s : TxState W) : Prop where
  now : s.toTxPoint.Fifo
  points : ∀ p ∈ s.points, p.Fifo

theorem Sound.ask {α : Type} {s : TxState W} (h : Sound s) (call : W → α × W) :
    Sound (s.ask call).2 :=
  ⟨h.now, List.forall_mem_cons.mpr ⟨h.now, h.points⟩⟩

variable (client : WiFiClient W) (esp : Bool)

theorem chunk_spec {s : TxState W} (h : Sound s) {n : Nat} (hn : 0 < n) :
    Sound (s.chunk client esp n).2 ∧ (s.chunk client esp n).2.toTxPoint = s.toTxPoint
      ∧ ∀ m, (s.chunk client esp n).1 = some m → 0 < m ∧ m ≤ n := by
  unfold chunk
  split
  · refine ⟨h.ask _, rfl, ?_⟩
    intro m hm
    dsimp only at hm
    split at hm
    · cases hm
    · obtain rfl := Option.some.inj hm
      split <;> omega
  · refine ⟨h, rfl, ?_⟩
    intro m hm
    obtain rfl := Option.some.inj hm
    split
    · exact ⟨Nat.succ_pos _, Nat.le_of_lt ‹_›⟩
    · exact ⟨hn, Nat.le_refl n⟩

/-- From `s`, `written` bytes of the ring have been handed over, and are still in
it. -/
structure Wrote (s : TxState W) (written : Nat) (t : TxState W) : Prop where
  connection : t.connection = s.connection
  accepted : t.accepted = s.accepted
  sent : t.sent = s.sent ++ s.connection.queued.take written
  points : ∀ p ∈ t.points, p.Fifo

/-- The write stays inside the array. -/
theorem writeClient_spec {s : TxState W} (h : Sound s) {n : Nat}
    (hn : n ≤ s.connection.contiguousOutputSize) :
    ∃ written t, s.writeClient client n = some (written, t) ∧ written ≤ n
      ∧ Wrote s written t := by
  obtain ⟨hsize, hend⟩ := s.connection.contiguousOutputSize_le
  have hhead := h.now.head_lt
  have hslice : slice s.connection.tx s.connection.txHead n
      = some (s.connection.queued.take n) := slice_contents _ (by omega) (by omega)
  have hle : (client.write (s.connection.queued.take n) s.world).1 ≤ n :=
    (client.write_le _ _).trans (List.length_take_le _ _)
  unfold writeClient
  rw [hslice]
  refine ⟨_, _, rfl, hle, rfl, rfl, ?_, (h.ask (client.write (s.connection.queued.take n))).points⟩
  have htake := List.take_take (i := (client.write (s.connection.queued.take n) s.world).1)
    (j := n) (l := s.connection.queued)
  rw [Nat.min_eq_left hle] at htake
  exact congrArg (s.sent ++ ·) htake

theorem Wrote.zero {s t : TxState W} (h : Sound s) (hw : Wrote s 0 t) : Sound t := by
  refine ⟨⟨hw.connection ▸ h.now.toInRing, ?_⟩, hw.points⟩
  rw [hw.sent, hw.connection, hw.accepted, List.take_zero, List.append_nil]
  exact h.now.order

theorem Wrote.pop {s t : TxState W} (h : Sound s) {written : Nat} (hw : Wrote s written t)
    (hle : written ≤ s.connection.txSize) : Sound (t.pop written)
      ∧ (t.pop written).connection.txSize = s.connection.txSize - written
      ∧ (t.pop written).connection.active = s.connection.active := by
  have hring : InRing t.connection := hw.connection ▸ h.now.toInRing
  obtain ⟨hpopped, hqueued, hsize⟩ := popOutput_spec hring (hw.connection ▸ hle)
  refine ⟨⟨⟨hpopped, ?_⟩, hw.points⟩, ?_, ?_⟩
  · change t.sent ++ (t.connection.popOutput written).queued = t.accepted
    rw [hqueued, hw.sent, hw.connection, hw.accepted, List.append_assoc, List.take_append_drop]
    exact h.now.order
  · exact hsize.trans (by rw [hw.connection])
  · rw [← hw.connection]
    rfl

/-- The loop of `flush_output` ends: every turn takes a byte out of the ring. -/
theorem flushLoop_spec {turns : Nat} (flushed : Nat) {s : TxState W} (h : Sound s)
    (hturns : s.connection.txSize < turns) :
    ∃ total t, s.flushLoop client esp turns flushed = some (total, t) ∧ Sound t
      ∧ t.accepted = s.accepted ∧ t.connection.active = s.connection.active := by
  induction turns generalizing flushed s with
  | zero => omega
  | succ turns ih =>
      unfold flushLoop
      split
      · exact ⟨flushed, s, rfl, h, rfl, rfl⟩
      · have hconnected := h.ask client.connected
        have hlimit := (s.ask client.connected).2.connection.contiguousOutputSize_le
        dsimp only
        split
        · exact ⟨flushed, _, rfl, hconnected, rfl, rfl⟩
        · split
          · exact ⟨flushed, _, rfl, hconnected, rfl, rfl⟩
          · rename_i hpos
            obtain ⟨hsound, hpoint, hbounds⟩ := chunk_spec client esp
              hconnected (Nat.pos_of_ne_zero hpos)
            generalize (s.ask client.connected).2.chunk client esp
              (s.ask client.connected).2.connection.contiguousOutputSize = r
              at hsound hpoint hbounds ⊢
            obtain ⟨length, u⟩ := r
            have hconnection : u.connection = s.connection := congrArg TxPoint.connection hpoint
            have haccepted : u.accepted = s.accepted := congrArg TxPoint.accepted hpoint
            have hsame : (s.ask client.connected).2.connection = s.connection := rfl
            rw [hsame] at hbounds hlimit
            dsimp only at hsound hbounds ⊢
            cases length with
            | none =>
                exact ⟨flushed, u, rfl, hsound, haccepted,
                  congrArg ArduinoWiFiTcpConnection.active hconnection⟩
            | some n =>
                obtain ⟨-, hn⟩ := hbounds n rfl
                obtain ⟨written, t, hwrite, hle, hw⟩ := writeClient_spec client
                  hsound (hconnection ▸ hn)
                have hsize : u.connection.txSize = s.connection.txSize := by rw [hconnection]
                obtain ⟨hpopped, hshort, hactive⟩ := hw.pop hsound (by omega)
                rw [hconnection] at hshort hactive
                dsimp only
                rw [hwrite]
                dsimp only
                split
                · rename_i hzero
                  subst hzero
                  exact ⟨flushed, t, rfl, hw.zero hsound, hw.accepted.trans haccepted,
                    congrArg ArduinoWiFiTcpConnection.active (hw.connection.trans hconnection)⟩
                · split
                  · exact ⟨_, _, rfl, hpopped, hw.accepted.trans haccepted, hactive⟩
                  · obtain ⟨total, v, hloop, hv, hvaccepted, hvactive⟩ :=
                      ih (flushed + written) hpopped (by omega)
                    exact ⟨total, v, hloop, hv,
                      hvaccepted.trans (hw.accepted.trans haccepted), hvactive.trans hactive⟩

theorem flushOutput_spec {s : TxState W} (h : Sound s) :
    ∃ total t, s.flushOutput client esp = some (total, t) ∧ Sound t
      ∧ t.accepted = s.accepted ∧ t.connection.active = s.connection.active := by
  unfold flushOutput
  split
  · exact ⟨0, s, rfl, h, rfl, rfl⟩
  · exact flushLoop_spec client esp 0 h (Nat.lt_succ_self _)

/-- `write` accepts as much as there is room for behind its own flush. -/
theorem write_spec {s : TxState W} (h : Sound s) (hactive : s.connection.active = true)
    (src : List UInt8) :
    ∃ flushed n t, s.flushOutput client esp = some flushed
      ∧ s.write client esp src = some (n, t)
      ∧ n = min src.length (txCapacity - flushed.2.connection.txSize)
      ∧ t.accepted = s.accepted ++ src.take n ∧ Sound t ∧ t.connection.active = true := by
  obtain ⟨total, u, hflush, hsound, haccepted, hkept⟩ :=
    flushOutput_spec client esp h
  obtain ⟨c, hpush, hpushed⟩ := pushOutput_spec hsound.now.toInRing src
  by_cases hempty : src.length = 0
  · have hnil : src = [] := List.eq_nil_of_length_eq_zero hempty
    subst hnil
    refine ⟨_, 0, s, hflush, ?_, (Nat.zero_min _).symm, (List.append_nil _).symm, h, hactive⟩
    unfold write
    exact if_pos (by simp)
  · have hlength : (src.take (min src.length u.connection.txFree)).length
        ≤ u.connection.txFree := (List.length_take_le _ _).trans (Nat.min_le_right _ _)
    refine ⟨_, min src.length u.connection.txFree,
      { u with
        connection := c
        accepted := u.accepted ++ src.take (min src.length u.connection.txFree) },
      hflush, ?_, rfl, by rw [haccepted], ⟨⟨hpushed.inRing hsound.now.toInRing hlength, ?_⟩,
        hsound.points⟩, hpushed.active.trans (hkept.trans hactive)⟩
    · unfold write
      rw [if_neg (by simp [hactive, hempty]), hflush, Option.bind_some, hpush, Option.map_some]
    · change u.sent ++ c.queued = _
      rw [hpushed.queued, ← List.append_assoc, hsound.now.order]

/-! ## Runs -/

/-- **The step lemma.** -/
theorem step_sound {s : TxState W} (call : OutputCall W)
    (h : Sound s ∧ s.connection.active = true) :
    ∃ t, s.step client esp call = some t ∧ Sound t ∧ t.connection.active = true := by
  obtain ⟨hsound, hactive⟩ := h
  cases call with
  | write src =>
      obtain ⟨flushed, n, t, -, hwrite, -, -, ht, hkept⟩ :=
        write_spec client esp hsound hactive src
      exact ⟨t, congrArg (Option.map Prod.snd) hwrite, ht, hkept⟩
  | flushOutput =>
      obtain ⟨total, t, hflush, ht, -, hkept⟩ :=
        flushOutput_spec client esp hsound
      exact ⟨t, congrArg (Option.map Prod.snd) hflush, ht, hkept.trans hactive⟩
  | outside world => exact ⟨_, rfl, ⟨hsound.now, hsound.points⟩, hactive⟩

theorem attached_sound (c : ArduinoWiFiTcpConnection) (world : W) :
    Sound (attached c world) ∧ (attached c world).connection.active = true := by
  refine ⟨⟨⟨⟨Nat.succ_pos _, Nat.zero_le _⟩, ?_⟩, List.forall_mem_nil _⟩, rfl⟩
  exact contents_zero c.tx 0

/-- **The output queue is a lossless queue**: every run goes through (the loops
end, and nothing leaves the array), and at its end and wherever the client was
called, what was handed over and what is queued is what was accepted. The next
`write` accepts what there is room for behind its own flush. -/
theorem output_fifo (client : WiFiClient W) (esp : Bool) (c : ArduinoWiFiTcpConnection)
    (world : W) (calls : List (OutputCall W)) :
    ∃ s, run (step client esp) (attached c world) calls = some s
      ∧ s.toTxPoint.Fifo ∧ (∀ p ∈ s.points, p.Fifo)
      ∧ ∀ src, ∃ flushed n t, s.flushOutput client esp = some flushed
        ∧ s.write client esp src = some (n, t)
        ∧ n = min src.length (txCapacity - flushed.2.connection.txSize)
        ∧ t.accepted = s.accepted ++ src.take n := by
  obtain ⟨s, hrun, hsound, hactive⟩ :=
    run_total (fun _ call h => step_sound client esp call h)
      (attached_sound c world) calls
  refine ⟨s, hrun, hsound.now, hsound.points, ?_⟩
  intro src
  obtain ⟨flushed, n, t, hflush, hwrite, hn, haccepted, -⟩ :=
    write_spec client esp hsound hactive src
  exact ⟨flushed, n, t, hflush, hwrite, hn, haccepted⟩

end TxState

end AsyncEventLoop
