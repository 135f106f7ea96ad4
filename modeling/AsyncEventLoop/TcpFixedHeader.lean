import Mathlib.Logic.Function.Iterate
import AsyncEventLoop.HeaderReader
import AsyncEventLoop.Runs

/-!
# A fixed header, read straight off a connection

The handler of the fixed-header server does without a protocol reader: it peeks at the
first byte, waits until the connection has as many bytes as it announces, and takes them
with one `read_exact`. A byte that announces more than 64 closes the connection.

`TcpInput` is what `ITcpConnection` offers for that. Its three classes take it from a
libevent buffer, from a socket and from a `WiFiClient`; to each of them the same laws
apply (`TcpInput.Lawful`). Bytes may arrive between any two calls of the handler, as they
do where the connection asks the system each time.

The handler serves the frames that a `HeaderPayloadProtocolReader` for the same format
delivers before its first error, and closes the connection where that counts it.
-/

namespace AsyncEventLoop

open Runs

/-! ## The input of a connection -/

/-- What `ITcpConnection` offers for its input, and what the network does with it. A call
that returns false hands out nothing. -/
structure TcpInput (σ : Type) where
  receive : List UInt8 → σ → σ
  inputSize : σ → Nat
  peek : Nat → σ → Option (List UInt8)
  readExact : Nat → σ → Option (List UInt8) × σ
  close : σ → σ

/-- The laws: an open connection has the bytes it has received, less those that were read;
`peek` is asked for one byte only. -/
structure TcpInput.Lawful {σ : Type} (c : TcpInput σ) (bytes : σ → Option (List UInt8)) :
    Prop where
  receive : ∀ s arrival, bytes (c.receive arrival s) = (bytes s).map (· ++ arrival)
  inputSize : ∀ s, c.inputSize s = ((bytes s).getD []).length
  peek : ∀ s b rest, bytes s = some (b :: rest) → c.peek 1 s = some [b]
  readExact : ∀ s input n, bytes s = some input → 0 < n → n ≤ input.length →
    (c.readExact n s).1 = some (input.take n)
      ∧ bytes (c.readExact n s).2 = some (input.drop n)
  close : ∀ s, bytes (c.close s) = none

/-! ### `LinuxTcpConnection` -/

/-- What libevent offers for an input buffer: what a call returns and the bytes it hands
out, and for `evbuffer_remove` what it leaves. -/
structure Evbuffer where
  copyout : List UInt8 → Nat → Int64 × List UInt8
  remove : List UInt8 → Nat → Int32 × List UInt8 × List UInt8

/-- The documentation, where the buffer has all that is asked for. -/
structure Evbuffer.Documented (evbuffer : Evbuffer) : Prop where
  copyout : ∀ input len, len ≤ input.length →
    evbuffer.copyout input len = (Int64.ofNat len, input.take len)
  remove : ∀ input len, len ≤ input.length →
    evbuffer.remove input len = (Int32.ofNat len, input.take len, input.drop len)

/-- One that does as documented, and of less than is asked for all there is. -/
def Evbuffer.ofList : Evbuffer where
  copyout input len := (Int64.ofNat (min len input.length), input.take len)
  remove input len := (Int32.ofNat (min len input.length), input.take len, input.drop len)

theorem Evbuffer.ofList_documented : Evbuffer.ofList.Documented where
  copyout input len h := by simp only [ofList, Nat.min_eq_left h]
  remove input len h := by simp only [ofList, Nat.min_eq_left h]

/-- `LinuxTcpConnection`, as far as its input goes: its bufferevent is what the input
buffer of it has. -/
structure LinuxTcpConnectionInput where
  bev : Option (List UInt8) := some []

namespace LinuxTcpConnectionInput

variable (evbuffer : Evbuffer)

def inputSize (s : LinuxTcpConnectionInput) : Nat :=
  match s.bev with
  | some input => input.length
  | none => 0

def peek (len : Nat) (s : LinuxTcpConnectionInput) : Option (List UInt8) :=
  match s.bev with
  | none => none
  | some input =>
      if s.inputSize < len then none
      else
        let r := evbuffer.copyout input len
        if r.1 = Int64.ofNat len then some r.2 else none

def readExact (len : Nat) (s : LinuxTcpConnectionInput) :
    Option (List UInt8) × LinuxTcpConnectionInput :=
  match s.bev with
  | none => (none, s)
  | some input =>
      if s.inputSize < len then (none, s)
      else
        let r := evbuffer.remove input len
        (if r.1 = Int32.ofNat len then some r.2.1 else none, { bev := some r.2.2 })

def close (_ : LinuxTcpConnectionInput) : LinuxTcpConnectionInput := { bev := none }

def receive (arrival : List UInt8) (s : LinuxTcpConnectionInput) : LinuxTcpConnectionInput :=
  { bev := s.bev.map (· ++ arrival) }

def input : TcpInput LinuxTcpConnectionInput :=
  ⟨receive, inputSize, peek evbuffer, readExact evbuffer, close⟩

variable {evbuffer}

theorem input_lawful (hevbuffer : evbuffer.Documented) : (input evbuffer).Lawful bev where
  receive s arrival := rfl
  inputSize s := by
    cases h : s.bev <;> simp [input, inputSize, h]
  peek s b rest h := by
    have hcopied := hevbuffer.copyout (b :: rest) 1 (by simp)
    simp [input, peek, inputSize, h, hcopied]
  readExact s bytes n h hpos hn := by
    simp [input, readExact, inputSize, h, hevbuffer.remove bytes n hn, Nat.not_lt.mpr hn]
  close s := rfl

end LinuxTcpConnectionInput

/-! ### `LinuxTcpClientConnection` -/

/-- `LinuxTcpClientConnection`, as far as its input goes: whether it has a descriptor, and
what the socket has. -/
structure LinuxTcpClientInput where
  fd : Bool := true
  socket : List UInt8 := []

namespace LinuxTcpClientInput

/-- `ioctl` with `FIONREAD`. -/
def inputSize (s : LinuxTcpClientInput) : Nat := if s.fd then s.socket.length else 0

/-- A socket without bytes answers `EAGAIN`, which makes it 0. -/
def read (maxLen : Nat) (s : LinuxTcpClientInput) : List UInt8 × LinuxTcpClientInput :=
  if !s.fd ∨ maxLen = 0 then ([], s)
  else (s.socket.take maxLen, { s with socket := s.socket.drop maxLen })

/-- `recv` with `MSG_PEEK`. -/
def peek (len : Nat) (s : LinuxTcpClientInput) : Option (List UInt8) :=
  if !s.fd ∨ len = 0 then none
  else
    let dst := s.socket.take len
    if dst.length = len then some dst else none

def readExact (len : Nat) (s : LinuxTcpClientInput) :
    Option (List UInt8) × LinuxTcpClientInput :=
  if s.inputSize < len then (none, s)
  else
    let r := s.read len
    (if r.1.length = len then some r.1 else none, r.2)

def close (s : LinuxTcpClientInput) : LinuxTcpClientInput := { s with fd := false }

def receive (arrival : List UInt8) (s : LinuxTcpClientInput) : LinuxTcpClientInput :=
  { s with socket := s.socket ++ arrival }

def input : TcpInput LinuxTcpClientInput := ⟨receive, inputSize, peek, readExact, close⟩

/-- What can be read. -/
def bytes (s : LinuxTcpClientInput) : Option (List UInt8) :=
  if s.fd then some s.socket else none

theorem bytes_eq_some {s : LinuxTcpClientInput} {bs : List UInt8} :
    s.bytes = some bs ↔ s.fd = true ∧ s.socket = bs := by
  cases hfd : s.fd <;> simp [bytes, hfd]

theorem input_lawful : input.Lawful bytes where
  receive s arrival := by
    cases h : s.fd <;> simp [input, receive, bytes, h]
  inputSize s := by
    cases h : s.fd <;> simp [input, inputSize, bytes, h]
  peek s b rest h := by
    obtain ⟨hfd, hsocket⟩ := bytes_eq_some.mp h
    simp [input, peek, hfd, hsocket]
  readExact s bs n h hpos hn := by
    obtain ⟨hfd, rfl⟩ := bytes_eq_some.mp h
    have hne : n ≠ 0 := by omega
    simp [input, readExact, inputSize, read, bytes, hfd, hne, Nat.not_lt.mpr hn,
      Nat.min_eq_left hn]
  close s := rfl

end LinuxTcpClientInput

/-! ### `ArduinoWiFiTcpConnection` -/

/-- `ArduinoWiFiTcpConnection`, as far as its input goes: `client` is what its
`WiFiClient` has. -/
structure ArduinoTcpInput where
  active : Bool := true
  client : List UInt8 := []

namespace ArduinoTcpInput

/-- The loop of `read`, with room for so many bytes. -/
def readLoop : (room : Nat) → (client : List UInt8) → List UInt8 × List UInt8
  | 0, client => ([], client)
  | _ + 1, [] => ([], [])
  | room + 1, c :: client =>
      let r := readLoop room client
      (c :: r.1, r.2)

def inputSize (s : ArduinoTcpInput) : Nat := if s.active then s.client.length else 0

def read (maxLen : Nat) (s : ArduinoTcpInput) : List UInt8 × ArduinoTcpInput :=
  if !s.active ∨ maxLen = 0 then ([], s)
  else
    let r := readLoop maxLen s.client
    (r.1, { s with client := r.2 })

def maxPeekSize : Nat := 1

def peek (len : Nat) (s : ArduinoTcpInput) : Option (List UInt8) :=
  if !s.active ∨ len = 0 ∨ s.client.length < len then none
  else if len ≠ maxPeekSize then none
  else s.client.head?.map fun c => [c]

def readExact (len : Nat) (s : ArduinoTcpInput) : Option (List UInt8) × ArduinoTcpInput :=
  if s.inputSize < len then (none, s)
  else
    let r := s.read len
    (if r.1.length = len then some r.1 else none, r.2)

def close (s : ArduinoTcpInput) : ArduinoTcpInput := { s with active := false }

def receive (arrival : List UInt8) (s : ArduinoTcpInput) : ArduinoTcpInput :=
  { s with client := s.client ++ arrival }

def input : TcpInput ArduinoTcpInput := ⟨receive, inputSize, peek, readExact, close⟩

/-- What can be read. -/
def bytes (s : ArduinoTcpInput) : Option (List UInt8) :=
  if s.active then some s.client else none

theorem bytes_eq_some {s : ArduinoTcpInput} {bs : List UInt8} :
    s.bytes = some bs ↔ s.active = true ∧ s.client = bs := by
  cases hactive : s.active <;> simp [bytes, hactive]

theorem readLoop_eq (room : Nat) (client : List UInt8) :
    readLoop room client = (client.take room, client.drop room) := by
  induction room generalizing client with
  | zero => rfl
  | succ room ih =>
      cases client with
      | nil => rfl
      | cons c client => simp [readLoop, ih]

theorem input_lawful : input.Lawful bytes where
  receive s arrival := by
    cases h : s.active <;> simp [input, receive, bytes, h]
  inputSize s := by
    cases h : s.active <;> simp [input, inputSize, bytes, h]
  peek s b rest h := by
    obtain ⟨hactive, hclient⟩ := bytes_eq_some.mp h
    simp [input, peek, maxPeekSize, hactive, hclient]
  readExact s bs n h hpos hn := by
    obtain ⟨hactive, rfl⟩ := bytes_eq_some.mp h
    have hne : n ≠ 0 := by omega
    simp [input, readExact, inputSize, read, readLoop_eq, bytes, hactive, hne,
      Nat.not_lt.mpr hn, Nat.min_eq_left hn]
  close s := rfl

end ArduinoTcpInput

/-! ### The three of them -/

/-- The classes that implement `ITcpConnection`. -/
inductive TcpConnectionClass where
  | linuxTcpConnection
  | linuxTcpClientConnection
  | arduinoWiFiTcpConnection

namespace TcpConnectionClass

abbrev State : TcpConnectionClass → Type
  | linuxTcpConnection => LinuxTcpConnectionInput
  | linuxTcpClientConnection => LinuxTcpClientInput
  | arduinoWiFiTcpConnection => ArduinoTcpInput

def input (evbuffer : Evbuffer) : (k : TcpConnectionClass) → TcpInput k.State
  | linuxTcpConnection => LinuxTcpConnectionInput.input evbuffer
  | linuxTcpClientConnection => LinuxTcpClientInput.input
  | arduinoWiFiTcpConnection => ArduinoTcpInput.input

/-- An open connection that has received nothing yet. -/
def opened : (k : TcpConnectionClass) → k.State
  | linuxTcpConnection => ({} : LinuxTcpConnectionInput)
  | linuxTcpClientConnection => ({} : LinuxTcpClientInput)
  | arduinoWiFiTcpConnection => ({} : ArduinoTcpInput)

theorem lawful {evbuffer : Evbuffer} (hevbuffer : evbuffer.Documented)
    (k : TcpConnectionClass) :
    ∃ bytes, (k.input evbuffer).Lawful bytes ∧ bytes k.opened = some [] := by
  cases k with
  | linuxTcpConnection => exact ⟨_, LinuxTcpConnectionInput.input_lawful hevbuffer, rfl⟩
  | linuxTcpClientConnection => exact ⟨_, LinuxTcpClientInput.input_lawful, rfl⟩
  | arduinoWiFiTcpConnection => exact ⟨_, ArduinoTcpInput.input_lawful, rfl⟩

end TcpConnectionClass

/-! ## The handler -/

/-- The call that `on_data` is about to make; `returned` if it is not running. -/
inductive OnDataAt where
  | returned
  /-- The condition of the loop. -/
  | inputSize
  | peek
  | frameSize (length : UInt8)
  | readExact (length : UInt8)
  deriving DecidableEq

/-- A connection of a `FixedHeaderServerHandler`: what the handler has handed to its
`write`, frame by frame, whether it has closed it, and all the bytes that have come. The
handler does not look at what `write` returns. -/
structure FixedHeaderSession (σ : Type) where
  connection : σ
  position : OnDataAt := .returned
  written : List (List UInt8) := []
  closed : Bool := false
  arrived : List UInt8 := []

inductive FixedHeaderEvent where
  | arrives (bytes : List UInt8)
  /-- The owner of the connection calls `on_data`. -/
  | onData
  /-- The callback makes its next call. -/
  | call

namespace FixedHeaderSession

variable {σ : Type} (c : TcpInput σ)

def onData (s : FixedHeaderSession σ) : FixedHeaderSession σ := { s with position := .inputSize }

/-- `on_data`, up to its next call on the connection. -/
def call (s : FixedHeaderSession σ) : FixedHeaderSession σ :=
  match s.position with
  | .returned => s
  | .inputSize =>
      if c.inputSize s.connection ≥ 1 then { s with position := .peek }
      else { s with position := .returned }
  | .peek =>
      match c.peek 1 s.connection with
      | none => { s with position := .returned }
      | some bytes =>
          let length := bytes.headD 0
          if length > 64 then
            { s with connection := c.close s.connection, closed := true, position := .returned }
          else { s with position := .frameSize length }
  | .frameSize length =>
      let frameSize := 1 + length.toNat
      if c.inputSize s.connection < frameSize then { s with position := .returned }
      else { s with position := .readExact length }
  | .readExact length =>
      let r := c.readExact (1 + length.toNat) s.connection
      match r.1 with
      | none => { s with connection := r.2, position := .returned }
      | some frame =>
          { s with connection := r.2, written := s.written ++ [frame], position := .inputSize }

/-- A callback that is running goes on; otherwise the next one begins. -/
def serve (s : FixedHeaderSession σ) : FixedHeaderSession σ :=
  if s.position = .returned then s.onData else s

def step (s : FixedHeaderSession σ) : FixedHeaderEvent → Option (FixedHeaderSession σ)
  | .arrives bytes =>
      some { s with
        connection := c.receive bytes s.connection
        arrived := s.arrived ++ bytes }
  | .onData => if s.position = .returned then some s.onData else none
  | .call => if s.position = .returned then none else some (s.call c)

/-! ## Frames -/

/-- The options of a `HeaderPayloadProtocolReader` for the same format. -/
def options : HeaderPayloadProtocolOptions :=
  ⟨1, 64, some fun header => (header.headD 0).toUInt64⟩

/-- What such a reader does to the outside with a stream. -/
def parsed (bytes : List UInt8) : List HeaderOutput :=
  HeaderPayloadProtocolReader.parse 1 64 (fun header => (header.headD 0).toUInt64) bytes

/-- The frames that are delivered before the first error. -/
def framesBeforeError : List HeaderOutput → List (List UInt8)
  | [] => []
  | .protocolError :: _ => []
  | .frame bytes :: outputs => bytes :: framesBeforeError outputs
  | .asked _ :: outputs => framesBeforeError outputs
  | .overflow :: outputs => framesBeforeError outputs

/-- A length byte and as many bytes as it says. -/
structure Frame (frame : List UInt8) : Prop where
  size_le : (frame.headD 0).toNat ≤ 64
  length_eq : frame.length = 1 + (frame.headD 0).toNat

/-- The first bytes of a frame. -/
def Incomplete (bytes : List UInt8) : Prop :=
  (bytes.headD 0).toNat ≤ 64 ∧ bytes.length < 1 + (bytes.headD 0).toNat

theorem parsed_frame {frame : List UInt8} (h : Frame frame) (rest : List UInt8) :
    parsed (frame ++ rest) = .asked (frame.take 1) :: .frame frame :: parsed rest := by
  cases frame with
  | nil => cases h.length_eq
  | cons b payload =>
      refine HeaderPayloadProtocolReader.parse_frame Nat.one_pos (Nat.le_add_left _ _) ?_ ?_ rest
      · simpa using h.size_le
      · simpa using h.length_eq

theorem parsed_refused {b : UInt8} (hb : 64 < b.toNat) (rest : List UInt8) :
    parsed (b :: rest) = .asked [b] :: .protocolError :: parsed rest :=
  HeaderPayloadProtocolReader.parse_refused Nat.one_pos (List.length_singleton) (by simpa using hb)
    rest

theorem parsed_incomplete {bytes : List UInt8} (h : bytes = [] ∨ Incomplete bytes) :
    framesBeforeError (parsed bytes) = [] ∧ HeaderOutput.protocolError ∉ parsed bytes := by
  cases bytes with
  | nil =>
      have hnil : parsed [] = [] := HeaderPayloadProtocolReader.parse_short (by decide)
      rw [hnil]
      exact ⟨rfl, List.not_mem_nil⟩
  | cons b payload =>
      obtain ⟨hsize, hlength⟩ := h.resolve_left (List.cons_ne_nil _ _)
      have hopen : parsed (b :: payload) = [.asked [b]] :=
        HeaderPayloadProtocolReader.parse_open Nat.one_pos (Nat.le_add_left _ _)
          (by simpa using hsize) (by simpa using hlength)
      rw [hopen]
      exact ⟨rfl, by simp⟩

/-- What is delivered of a stream that begins with whole frames. -/
theorem parsed_frames {frames : List (List UInt8)} (h : ∀ f ∈ frames, Frame f)
    (rest : List UInt8) :
    framesBeforeError (parsed (frames.flatten ++ rest))
        = frames ++ framesBeforeError (parsed rest)
      ∧ (HeaderOutput.protocolError ∈ parsed (frames.flatten ++ rest)
        ↔ HeaderOutput.protocolError ∈ parsed rest) := by
  induction frames with
  | nil => exact ⟨rfl, Iff.rfl⟩
  | cons frame frames ih =>
      obtain ⟨hframe, hframes⟩ := List.forall_mem_cons.mp h
      obtain ⟨ihframes, iherror⟩ := ih hframes
      rw [List.flatten_cons, List.append_assoc, parsed_frame hframe]
      refine ⟨?_, ?_⟩
      · simp only [framesBeforeError, ihframes, List.cons_append]
      · simpa using iherror

/-! ## What the handler has done -/

/-- What `on_data` knows about the bytes that can be read. -/
def Knows (rest : List UInt8) : OnDataAt → Prop
  | .returned => True
  | .inputSize => True
  | .peek => rest ≠ []
  | .frameSize length => rest.head? = some length ∧ length.toNat ≤ 64
  | .readExact length =>
      rest.head? = some length ∧ length.toNat ≤ 64 ∧ 1 + length.toNat ≤ rest.length

theorem Knows.append {rest : List UInt8} {p : OnDataAt} (h : Knows rest p)
    (arrival : List UInt8) : Knows (rest ++ arrival) p := by
  have hhead {length : UInt8} (hrest : rest.head? = some length) :
      (rest ++ arrival).head? = some length := by
    rw [List.head?_append, hrest]
    rfl
  cases p with
  | returned => trivial
  | inputSize => trivial
  | peek => exact List.append_ne_nil_of_left_ne_nil h arrival
  | frameSize length => exact ⟨hhead h.1, h.2⟩
  | readExact length =>
      refine ⟨hhead h.1, h.2.1, Nat.le_trans h.2.2 ?_⟩
      rw [List.length_append]
      exact Nat.le_add_right _ _

/-- The account of a session: as long as it is open, what has come is the frames written
and what can be read; it was closed at a length byte over 64. -/
inductive Account (bytes : σ → Option (List UInt8)) (s : FixedHeaderSession σ) : Prop where
  | serving (rest : List UInt8) (isOpen : s.closed = false)
      (readable : bytes s.connection = some rest) (knows : Knows rest s.position)
      (frames : ∀ f ∈ s.written, Frame f) (arrived : s.arrived = s.written.flatten ++ rest)
  | shut (b : UInt8) (rest : List UInt8) (isClosed : s.closed = true)
      (unreadable : bytes s.connection = none)
      (idle : s.position = .returned ∨ s.position = .inputSize) (size : 64 < b.toNat)
      (frames : ∀ f ∈ s.written, Frame f) (arrived : s.arrived = s.written.flatten ++ b :: rest)

variable {c} {bytes : σ → Option (List UInt8)}

/-- One call; a frame that was taken is a frame, and the rest is what was behind it. -/
theorem call_account (h : c.Lawful bytes) {s : FixedHeaderSession σ} (hs : Account bytes s) :
    Account bytes (s.call c) := by
  cases hs with
  | shut b rest isClosed unreadable idle size frames arrived =>
      have hnone : c.inputSize s.connection = 0 := by
        rw [h.inputSize, unreadable]
        rfl
      rcases idle with hreturned | hsize
      · have hcall : s.call c = s := by rw [call, hreturned]
        rw [hcall]
        exact .shut b rest isClosed unreadable (.inl hreturned) size frames arrived
      · have hcall : s.call c = { s with position := .returned } := by
          simp [call, hsize, hnone]
        rw [hcall]
        exact .shut b rest isClosed unreadable (.inl rfl) size frames arrived
  | serving rest isOpen readable knows frames arrived =>
      have hcount : c.inputSize s.connection = rest.length := by
        rw [h.inputSize, readable]
        rfl
      cases hposition : s.position with
      | returned =>
          have hcall : s.call c = s := by rw [call, hposition]
          rw [hcall]
          exact .serving rest isOpen readable knows frames arrived
      | inputSize =>
          by_cases hsome : rest.length ≥ 1
          · have hcall : s.call c = { s with position := .peek } := by
              simp [call, hposition, hcount, hsome]
            rw [hcall]
            exact .serving rest isOpen readable (List.ne_nil_of_length_pos hsome) frames arrived
          · have hcall : s.call c = { s with position := .returned } := by
              simp [call, hposition, hcount, hsome]
            rw [hcall]
            exact .serving rest isOpen readable trivial frames arrived
      | peek =>
          rw [hposition] at knows
          obtain ⟨b, tail, rfl⟩ := List.exists_cons_of_ne_nil knows
          have hpeek := h.peek _ _ _ readable
          by_cases hlarge : b > 64
          · have hcall : s.call c
                = { s with
                    connection := c.close s.connection
                    closed := true
                    position := .returned } := by
              simp [call, hposition, hpeek, hlarge]
            rw [hcall]
            exact .shut b tail rfl (h.close _) (.inl rfl) (UInt8.lt_iff_toNat_lt.mp hlarge) frames
              arrived
          · have hcall : s.call c = { s with position := .frameSize b } := by
              simp [call, hposition, hpeek, hlarge]
            rw [hcall]
            have hsmall : b.toNat ≤ 64 := UInt8.le_iff_toNat_le.mp (UInt8.not_lt.mp hlarge)
            exact .serving (b :: tail) isOpen readable ⟨rfl, hsmall⟩ frames arrived
      | frameSize length =>
          rw [hposition] at knows
          by_cases hshort : rest.length < 1 + length.toNat
          · have hcall : s.call c = { s with position := .returned } := by
              simp [call, hposition, hcount, hshort]
            rw [hcall]
            exact .serving rest isOpen readable trivial frames arrived
          · have hcall : s.call c = { s with position := .readExact length } := by
              simp [call, hposition, hcount, hshort]
            rw [hcall]
            exact .serving rest isOpen readable ⟨knows.1, knows.2, Nat.not_lt.mp hshort⟩ frames
              arrived
      | readExact length =>
          rw [hposition] at knows
          obtain ⟨hhead, hsmall, henough⟩ := knows
          obtain ⟨hframe, hrest⟩ := h.readExact _ _ _ readable (Nat.lt_of_lt_of_le Nat.one_pos
            (Nat.le_add_right 1 length.toNat)) henough
          have hcall : s.call c
              = { s with
                  connection := (c.readExact (1 + length.toNat) s.connection).2
                  written := s.written ++ [rest.take (1 + length.toNat)]
                  position := .inputSize } := by
            simp [call, hposition, hframe]
          have hisFrame : Frame (rest.take (1 + length.toNat)) := by
            have hfirst : (rest.take (1 + length.toNat)).headD 0 = length := by
              rw [List.headD_eq_head?_getD, List.head?_take, if_neg (by omega), hhead]
              rfl
            refine ⟨by rwa [hfirst], ?_⟩
            rw [hfirst, List.length_take, Nat.min_eq_left henough]
          rw [hcall]
          refine .serving (rest.drop (1 + length.toNat)) isOpen hrest trivial ?_ ?_
          · exact List.forall_mem_append.mpr ⟨frames, List.forall_mem_singleton.mpr hisFrame⟩
          · dsimp only
            rw [List.flatten_append, List.flatten_singleton, List.append_assoc,
              List.take_append_drop]
            exact arrived

theorem onData_account {s : FixedHeaderSession σ} (hs : Account bytes s) :
    Account bytes s.onData := by
  cases hs with
  | shut b rest isClosed unreadable idle size frames arrived =>
      exact .shut b rest isClosed unreadable (.inr rfl) size frames arrived
  | serving rest isOpen readable knows frames arrived =>
      exact .serving rest isOpen readable trivial frames arrived

theorem arrives_account (h : c.Lawful bytes) {s : FixedHeaderSession σ} (hs : Account bytes s)
    (arrival : List UInt8) :
    Account bytes { s with
      connection := c.receive arrival s.connection
      arrived := s.arrived ++ arrival } := by
  cases hs with
  | shut b rest isClosed unreadable idle size frames arrived =>
      refine .shut b (rest ++ arrival) isClosed ?_ idle size frames ?_
      · rw [h.receive, unreadable]
        rfl
      · rw [arrived, List.append_assoc, List.cons_append]
  | serving rest isOpen readable knows frames arrived =>
      refine .serving (rest ++ arrival) isOpen ?_ (knows.append arrival) frames ?_
      · rw [h.receive, readable]
        rfl
      · rw [arrived, List.append_assoc]

theorem run_account (h : c.Lawful bytes) {connection : σ} (hopen : bytes connection = some [])
    {es : List FixedHeaderEvent} {s : FixedHeaderSession σ}
    (hrun : run (step c) { connection := connection } es = some s) : Account bytes s := by
  have hstart : Account bytes ({ connection := connection } : FixedHeaderSession σ) :=
    .serving [] rfl hopen trivial (List.forall_mem_nil _) rfl
  refine run_invariant (fun s e s' hs hstep => ?_) hstart hrun
  cases e with
  | arrives arrival =>
      obtain rfl := Option.some.inj hstep
      exact arrives_account h hs arrival
  | onData =>
      simp only [step] at hstep
      split at hstep
      · obtain rfl := Option.some.inj hstep
        exact onData_account hs
      · cases hstep
  | call =>
      simp only [step] at hstep
      split at hstep
      · cases hstep
      · obtain rfl := Option.some.inj hstep
        exact call_account h hs

/-! ## What the handler serves -/

/-- **At every moment** the frames written are the first of those that are delivered, and a
connection is closed only where there is an error. -/
theorem Account.serves {s : FixedHeaderSession σ} (hs : Account bytes s) :
    s.written <+: framesBeforeError (parsed s.arrived)
      ∧ (s.closed = true → HeaderOutput.protocolError ∈ parsed s.arrived) := by
  cases hs with
  | shut b rest isClosed unreadable idle size frames arrived =>
      obtain ⟨hframes, herror⟩ := parsed_frames frames (b :: rest)
      rw [arrived, hframes, herror, parsed_refused size]
      exact ⟨List.prefix_append _ _, fun _ => by simp⟩
  | serving rest isOpen readable knows frames arrived =>
      obtain ⟨hframes, -⟩ := parsed_frames frames rest
      rw [arrived, hframes]
      refine ⟨List.prefix_append _ _, fun hclosed => ?_⟩
      rw [isOpen] at hclosed
      cases hclosed

/-- Everything that can be served is: `on_data` has returned, and what is left is the first
bytes of a frame. -/
def Served (bytes : σ → Option (List UInt8)) (s : FixedHeaderSession σ) : Prop :=
  s.position = .returned ∧
    (s.closed = false → ∃ rest, bytes s.connection = some rest ∧ (rest = [] ∨ Incomplete rest))

theorem Served.all {s : FixedHeaderSession σ} (h : Served bytes s) (hs : Account bytes s) :
    s.written = framesBeforeError (parsed s.arrived)
      ∧ (s.closed = true ↔ HeaderOutput.protocolError ∈ parsed s.arrived) := by
  cases hs with
  | shut b rest isClosed unreadable idle size frames arrived =>
      obtain ⟨hframes, herror⟩ := parsed_frames frames (b :: rest)
      rw [arrived, hframes, herror, parsed_refused size]
      refine ⟨(List.append_nil _).symm, fun _ => by simp, fun _ => isClosed⟩
  | serving rest isOpen readable knows frames arrived =>
      obtain ⟨rest', hrest, hleft⟩ := h.2 isOpen
      obtain rfl := Option.some.inj (readable.symm.trans hrest)
      obtain ⟨hframes, herror⟩ := parsed_frames frames rest
      obtain ⟨hnone, hnoError⟩ := parsed_incomplete hleft
      rw [arrived, hframes, herror, hnone, isOpen]
      exact ⟨(List.append_nil _).symm, fun h => Bool.noConfusion h, fun h => absurd h hnoError⟩

/-- A bound for the calls that `on_data` still makes if nothing arrives: four for each byte,
and those of this turn. -/
def callsLeft (readable : Nat) : OnDataAt → Nat
  | .returned => 0
  | .inputSize => 4 * readable + 4
  | .peek => 4 * readable + 3
  | .frameSize _ => 4 * readable + 2
  | .readExact _ => 4 * readable + 1

theorem call_returned {s : FixedHeaderSession σ} (h : s.position = .returned) : s.call c = s := by
  rw [call, h]

/-- A call leads to the end, or to one that is nearer to it. -/
theorem call_progress (h : c.Lawful bytes) {s : FixedHeaderSession σ} (hs : Account bytes s)
    (hrunning : s.position ≠ .returned) :
    Served bytes (s.call c) ∨
      (s.call c).position ≠ .returned ∧
        callsLeft (c.inputSize (s.call c).connection) (s.call c).position
          < callsLeft (c.inputSize s.connection) s.position := by
  cases hs with
  | shut b rest isClosed unreadable idle size frames arrived =>
      have hnone : c.inputSize s.connection = 0 := by
        rw [h.inputSize, unreadable]
        rfl
      have hsize := idle.resolve_left hrunning
      have hcall : s.call c = { s with position := .returned } := by
        simp [call, hsize, hnone]
      rw [hcall]
      refine .inl ⟨rfl, fun hopen => ?_⟩
      rw [isClosed] at hopen
      cases hopen
  | serving rest isOpen readable knows frames arrived =>
      have hcount : c.inputSize s.connection = rest.length := by
        rw [h.inputSize, readable]
        rfl
      cases hposition : s.position with
      | returned => exact absurd hposition hrunning
      | inputSize =>
          by_cases hsome : rest.length ≥ 1
          · have hcall : s.call c = { s with position := .peek } := by
              simp [call, hposition, hcount, hsome]
            rw [hcall]
            exact .inr ⟨by simp, by simp [callsLeft]⟩
          · have hcall : s.call c = { s with position := .returned } := by
              simp [call, hposition, hcount, hsome]
            have hnil : rest = [] := List.eq_nil_of_length_eq_zero (by omega)
            rw [hcall]
            exact .inl ⟨rfl, fun _ => ⟨rest, readable, .inl hnil⟩⟩
      | peek =>
          rw [hposition] at knows
          obtain ⟨b, tail, rfl⟩ := List.exists_cons_of_ne_nil knows
          have hpeek := h.peek _ _ _ readable
          by_cases hlarge : b > 64
          · refine .inl ⟨?_, fun hopen => ?_⟩
            · simp [call, hposition, hpeek, hlarge]
            · simp [call, hposition, hpeek, hlarge] at hopen
          · have hcall : s.call c = { s with position := .frameSize b } := by
              simp [call, hposition, hpeek, hlarge]
            rw [hcall]
            exact .inr ⟨by simp, by simp [callsLeft]⟩
      | frameSize length =>
          rw [hposition] at knows
          by_cases hshort : rest.length < 1 + length.toNat
          · have hcall : s.call c = { s with position := .returned } := by
              simp [call, hposition, hcount, hshort]
            have hfirst : rest.headD 0 = length := by
              rw [List.headD_eq_head?_getD, knows.1]
              rfl
            rw [hcall]
            exact .inl ⟨rfl, fun _ =>
              ⟨rest, readable, .inr ⟨by rw [hfirst]; exact knows.2, by rwa [hfirst]⟩⟩⟩
          · have hcall : s.call c = { s with position := .readExact length } := by
              simp [call, hposition, hcount, hshort]
            rw [hcall]
            exact .inr ⟨by simp, by simp [callsLeft]⟩
      | readExact length =>
          rw [hposition] at knows
          obtain ⟨hhead, hsmall, henough⟩ := knows
          obtain ⟨hframe, hrest⟩ := h.readExact _ _ _ readable (Nat.lt_of_lt_of_le Nat.one_pos
            (Nat.le_add_right 1 length.toNat)) henough
          have hcall : s.call c
              = { s with
                  connection := (c.readExact (1 + length.toNat) s.connection).2
                  written := s.written ++ [rest.take (1 + length.toNat)]
                  position := .inputSize } := by
            simp [call, hposition, hframe]
          rw [hcall]
          refine .inr ⟨by simp, ?_⟩
          dsimp only
          rw [h.inputSize, hrest, hcount]
          simp only [Option.getD_some, List.length_drop, callsLeft]
          omega

/-- **Without arrivals a callback comes to its end**, and has served everything then. -/
theorem calls_serve (h : c.Lawful bytes) (n : Nat) {s : FixedHeaderSession σ}
    (hs : Account bytes s) (hleft : Served bytes s ∨
      s.position ≠ .returned ∧ callsLeft (c.inputSize s.connection) s.position ≤ n) :
    Served bytes ((call c)^[n] s) ∧ Account bytes ((call c)^[n] s)
      ∧ ((call c)^[n] s).arrived = s.arrived := by
  induction n generalizing s with
  | zero =>
      refine ⟨hleft.resolve_right fun hrunning => ?_, hs, rfl⟩
      cases hposition : s.position <;> simp [hposition, callsLeft] at hrunning
  | succ n ih =>
      have harrived : (s.call c).arrived = s.arrived := by
        unfold call
        split
        · rfl
        · split <;> rfl
        · split
          · rfl
          · dsimp only
            split <;> rfl
        · dsimp only
          split <;> rfl
        · dsimp only
          split <;> rfl
      rw [Function.iterate_succ_apply, ← harrived]
      refine ih (call_account h hs) ?_
      rcases hleft with hserved | ⟨hrunning, hbound⟩
      · rw [call_returned hserved.1]
        exact .inl hserved
      · rcases call_progress h hs hrunning with hserved | ⟨hstill, hless⟩
        · exact .inl hserved
        · exact .inr ⟨hstill, by omega⟩

/-- What a `HeaderPayloadProtocolReader` delivers of the same bytes, however they reach it. -/
theorem pollAll_parsed {N : Nat} (hN : 65 ≤ N) (hsize : N < sizeModulus)
    (arrivals : List (List UInt8)) :
    (HeaderPayloadProtocolReader.pollAll (.fresh N options) arrivals).2
      = parsed arrivals.flatten := by
  have husable : HeaderPayloadProtocolReader.Usable N options
      fun header => (header.headD 0).toUInt64 := ⟨Nat.le_refl 1, hN, rfl, hsize⟩
  have hfresh := HeaderPayloadProtocolReader.fresh_open husable
  rw [HeaderPayloadProtocolReader.pollAll_open husable arrivals hfresh]
  obtain ⟨-, hparse, -⟩ :=
    HeaderPayloadProtocolReader.readBytes_open husable arrivals.flatten hfresh
  rwa [HeaderPayloadProtocolReader.parse_short Nat.one_pos, List.nil_append,
    List.nil_append] at hparse

/-- **The handler agrees with the protocol reader**, on each of the classes: however the
bytes come, between any two calls of the handler, what it has handed to `write` so far are
the first of the frames that a `HeaderPayloadProtocolReader` delivers of them before its
first error. Once nothing arrives any more, the callback that is running, or the next one,
comes to its end; then it has handed on all the frames, and the connection is closed exactly
if there is an error. -/
theorem frames_served {evbuffer : Evbuffer} (hevbuffer : evbuffer.Documented)
    (k : TcpConnectionClass) {es : List FixedHeaderEvent} {s : FixedHeaderSession k.State}
    (hrun : run (step (k.input evbuffer)) { connection := k.opened } es = some s)
    {N : Nat} (hN : 65 ≤ N) (hsize : N < sizeModulus) {arrivals : List (List UInt8)}
    (harrivals : arrivals.flatten = s.arrived) :
    let outputs := (HeaderPayloadProtocolReader.pollAll (.fresh N options) arrivals).2
    s.written <+: framesBeforeError outputs
      ∧ (s.closed = true → HeaderOutput.protocolError ∈ outputs)
      ∧ ∃ calls, ∀ n ≥ calls,
        ((call (k.input evbuffer))^[n] s.serve).written = framesBeforeError outputs
          ∧ (((call (k.input evbuffer))^[n] s.serve).closed = true
            ↔ HeaderOutput.protocolError ∈ outputs) := by
  intro outputs
  have houtputs : outputs = parsed s.arrived := by
    rw [← harrivals]
    exact pollAll_parsed hN hsize arrivals
  obtain ⟨bytes, hlawful, hopen⟩ := k.lawful hevbuffer
  have haccount := run_account hlawful hopen hrun
  rw [houtputs]
  obtain ⟨hwritten, hclosed⟩ := haccount.serves
  obtain ⟨hrunning, haccount', hsame⟩ : s.serve.position ≠ .returned
      ∧ Account bytes s.serve ∧ s.serve.arrived = s.arrived := by
    unfold serve
    split
    · exact ⟨by simp [onData], onData_account haccount, rfl⟩
    · exact ⟨‹_›, haccount, rfl⟩
  refine ⟨hwritten, hclosed, callsLeft ((k.input evbuffer).inputSize s.serve.connection)
    s.serve.position, fun n hn => ?_⟩
  obtain ⟨hserved, haccount'', harrived⟩ :=
    calls_serve hlawful n haccount' (.inr ⟨hrunning, hn⟩)
  have hall := hserved.all haccount''
  rwa [harrived, hsame] at hall

/-- A frame whose end comes in the middle of a callback, and a length byte of 65. -/
def cutFrame : List FixedHeaderEvent :=
  [.arrives [2, 1], .onData, .call, .call, .arrives [9], .call, .call, .call, .onData, .call,
    .arrives [65]]

theorem frames_served_run : ∃ s,
    run (step (TcpConnectionClass.input .ofList .linuxTcpConnection))
        { connection := TcpConnectionClass.opened .linuxTcpConnection } cutFrame = some s
      ∧ s.written = [[2, 1, 9]]
      ∧ s.written <+: framesBeforeError
        (HeaderPayloadProtocolReader.pollAll (.fresh 65 options) [[2], [1, 9, 65]]).2 := by
  obtain ⟨s, hs⟩ : ∃ s, run (step (TcpConnectionClass.input .ofList .linuxTcpConnection))
      { connection := TcpConnectionClass.opened .linuxTcpConnection } cutFrame = some s :=
    ⟨_, rfl⟩
  have hstate := Option.some.inj hs
  have harrived : [[2], [1, 9, 65]].flatten = s.arrived := by
    rw [← hstate]
    rfl
  have hserved := frames_served Evbuffer.ofList_documented .linuxTcpConnection hs
    (Nat.le_refl 65) (by decide) harrived
  refine ⟨s, hs, ?_, hserved.1⟩
  rw [← hstate]
  rfl

end FixedHeaderSession

end AsyncEventLoop
