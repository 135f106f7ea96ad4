import AsyncEventLoop.Runs
import AsyncEventLoop.DottedQuad
import AsyncEventLoop.ResourceLedger
import AsyncEventLoop.LinuxTcpClient

/-!
# The file descriptors of the Linux streams

`LinuxSerialStream`, `LinuxUdpDatagramStream` and `LinuxFifoByteStream` own the
descriptor they have open. Each operation is given what its system calls return, and
lists the descriptors it has acquired, used and closed, the last one in front.

Many streams share the descriptors of one process, and the kernel hands a number out
again as soon as it is closed: a stream that kept a closed one would read, write or
close what belongs to another. None does (`Devices.descriptors_balance`), unless a
datagram stream that has a socket is copied or assigned to, which its class alone does
not forbid.
-/

namespace AsyncEventLoop

open Runs ResourceLedger DottedQuad

/-! ## One operation -/

/-- What an operation leaves of its object, the calls it has made on descriptors, the
last one in front, and what it returns. -/
structure Outcome (σ α : Type) where
  self : σ
  calls : List (Entry Nat)
  answer : α

/-- An operation that makes no call. -/
def Outcome.quiet {σ α : Type} (self : σ) (answer : α) : Outcome σ α where
  self := self
  calls := []
  answer := answer

/-- `::close(fd_)`, if there is one. -/
def closeCalls (fd : Option Nat) : List (Entry Nat) := fd.toList.map .released

/-- `static_cast<int>(n)`, or what an `errno` is reported as. -/
def transferred : Except Int Nat → Int
  | .ok n => (n : Int).bmod (2 ^ 32)
  | .error errno => if errno = EAGAIN ∨ errno = EWOULDBLOCK ∨ errno = EINTR then 0 else -1

/-! ## Serial ports -/

/-- The values of `speed_t` that `baud_to_speed` knows. -/
inductive Speed where
  | B1200
  | B2400
  | B4800
  | B9600
  | B19200
  | B38400
  | B57600
  | B115200
  | B230400
  | B460800
  | B921600
  deriving DecidableEq

def baudToSpeed : Nat → Option Speed
  | 1200 => some .B1200
  | 2400 => some .B2400
  | 4800 => some .B4800
  | 9600 => some .B9600
  | 19200 => some .B19200
  | 38400 => some .B38400
  | 57600 => some .B57600
  | 115200 => some .B115200
  | 230400 => some .B230400
  | 460800 => some .B460800
  | 921600 => some .B921600
  | _ => none

/-- The part of `termios` that `configure` writes; `raw` is what `cfmakeraw` does. -/
structure Termios where
  raw : Bool
  clocal : Bool
  cread : Bool
  csize : Nat
  parenb : Bool
  cstopb : Bool
  crtscts : Bool
  vmin : UInt8
  vtime : UInt8
  ispeed : Option Speed
  ospeed : Option Speed
  deriving DecidableEq

/-- The system calls of one `open`. -/
structure SerialEnv where
  opened : Except Int Nat
  tcgetattr : Option Termios
  cfsetispeed : Bool
  cfsetospeed : Bool
  tcsetattr : Bool

structure LinuxSerialStream where
  fd : Option Nat := none

namespace LinuxSerialStream

def close (s : LinuxSerialStream) : Outcome LinuxSerialStream Unit where
  self := { s with fd := none }
  calls := closeCalls s.fd
  answer := ()

/-- `configure`, with the attributes it sets if it returns true. -/
def configure (fd : Nat) (speed : Speed) (env : SerialEnv) :
    List (Entry Nat) × Option Termios :=
  match env.tcgetattr with
  | none => ([.used fd], none)
  | some tio =>
      let tio := { tio with
        raw := true
        clocal := true
        cread := true
        csize := 8
        parenb := false
        cstopb := false
        crtscts := false
        vmin := 0
        vtime := 0 }
      if env.cfsetispeed && env.cfsetospeed then
        let tio := { tio with ispeed := some speed, ospeed := some speed }
        ([.used fd, .used fd], if env.tcsetattr then some tio else none)
      else ([.used fd], none)

/-- `open`, with the attributes of the port if it returns true. -/
def openPort (s : LinuxSerialStream) (path : Option (List UInt8)) (baud : Nat)
    (env : SerialEnv) : Outcome LinuxSerialStream (Option Termios) :=
  let closed := s.close
  match path with
  | none | some [] => { closed with answer := none }
  | some _ =>
      match baudToSpeed baud, env.opened with
      | some speed, .ok fd =>
          let opened : LinuxSerialStream := { closed.self with fd := some fd }
          match configure fd speed env with
          | (calls, some tio) =>
              { self := opened, calls := calls ++ .acquired fd :: closed.calls, answer := some tio }
          | (calls, none) =>
              let failed := opened.close
              { failed with
                calls := failed.calls ++ (calls ++ .acquired fd :: closed.calls)
                answer := none }
      | _, _ => { closed with answer := none }

end LinuxSerialStream

/-- `read` and `write` of the byte streams: whether there is a buffer, its length, and
what the system call returns. -/
structure Transfer where
  buffer : Bool
  len : Nat
  result : Except Int Nat

/-- The descriptor is used unless there is nothing to transfer. -/
def Transfer.apply {σ : Type} (t : Transfer) (self : σ) (fd : Option Nat) : Outcome σ Int :=
  match fd with
  | none => .quiet self 0
  | some fd =>
      if !t.buffer || t.len = 0 then .quiet self 0
      else { self := self, calls := [.used fd], answer := transferred t.result }

def LinuxSerialStream.read (s : LinuxSerialStream) (t : Transfer) :
    Outcome LinuxSerialStream Int := t.apply s s.fd

def LinuxSerialStream.write (s : LinuxSerialStream) (t : Transfer) :
    Outcome LinuxSerialStream Int := t.apply s s.fd

/-! ## Datagram sockets -/

/-- `sockaddr_in`. -/
structure SockAddr where
  addr : Address := {}
  port : UInt16 := 0
  deriving DecidableEq

/-- The text of `host` ends before its first NUL. -/
structure UdpEndpoint where
  host : List UInt8 := []
  port : UInt16 := 0
  deriving DecidableEq

/-- `inet_ntop` into `char host[64]`, and `ntohs`, as `recv_from` fills its `source`. -/
def SockAddr.endpoint (sin : SockAddr) : UdpEndpoint where
  host := (text sin.addr).take 63
  port := sin.port

@[simp]
theorem SockAddr.endpoint_host (sin : SockAddr) : sin.endpoint.host = text sin.addr :=
  List.take_of_length_le ((length_text_le sin.addr).trans (by decide))

@[simp]
theorem SockAddr.endpoint_port (sin : SockAddr) : sin.endpoint.port = sin.port := rfl

/-- The system calls of one `bind`; `getfl` is whether `F_GETFL` returns flags. -/
structure BindEnv where
  socket : Except Int Nat
  bound : Bool
  getfl : Bool

/-- What `recvfrom` returns: an `errno`, or the bytes it has stored and the sender. -/
abbrev RecvFrom := Except Int (List UInt8 × SockAddr)

/-- What `sendto` was called with, if it was, and what the send returns. -/
structure Sent where
  dest : Option SockAddr := none
  returned : Int
  deriving DecidableEq

/-- What `recv_from` returns, stores and leaves in its `source`. -/
structure Received where
  returned : Int := 0
  bytes : List UInt8 := []
  source : Option UdpEndpoint := none
  deriving DecidableEq

structure LinuxUdpDatagramStream where
  fd : Option Nat := none
  remote : SockAddr := {}
  hasRemote : Bool := false

namespace LinuxUdpDatagramStream

def close (s : LinuxUdpDatagramStream) : Outcome LinuxUdpDatagramStream Unit where
  self := { s with fd := none, hasRemote := false }
  calls := closeCalls s.fd
  answer := ()

/-- `set_nonblocking`. -/
def nonblockingCalls (fd : Nat) (getfl : Bool) : List (Entry Nat) :=
  if getfl then [.used fd, .used fd] else [.used fd]

def bind (s : LinuxUdpDatagramStream) (reuseAddress : Bool) (env : BindEnv) :
    Outcome LinuxUdpDatagramStream Bool :=
  let closed := s.close
  match env.socket with
  | .error _ => { closed with answer := false }
  | .ok fd =>
      let opened : LinuxUdpDatagramStream := { closed.self with fd := some fd }
      let options : List (Entry Nat) := if reuseAddress then [.used fd, .used fd] else [.used fd]
      let calls := .used fd :: (options ++ .acquired fd :: closed.calls)
      if env.bound then
        { self := opened, calls := nonblockingCalls fd env.getfl ++ calls, answer := true }
      else
        let failed := opened.close
        { failed with calls := failed.calls ++ calls, answer := false }

def setRemote (s : LinuxUdpDatagramStream) (host : Option (List UInt8)) (port : UInt16) :
    Outcome LinuxUdpDatagramStream Bool :=
  match host.bind inetPton with
  | none => .quiet s false
  | some addr =>
      if port = 0 then .quiet s false
      else .quiet { s with remote := ⟨addr, port⟩, hasRemote := true } true

def sendToSockaddr (s : LinuxUdpDatagramStream) (t : Transfer) (sin : SockAddr) :
    Outcome LinuxUdpDatagramStream Sent :=
  let sent := t.apply s s.fd
  { sent with answer := { dest := if sent.calls = [] then none else some sin
                          returned := sent.answer } }

def write (s : LinuxUdpDatagramStream) (t : Transfer) : Outcome LinuxUdpDatagramStream Sent :=
  if s.hasRemote then s.sendToSockaddr t s.remote else .quiet s { returned := 0 }

def sendTo (s : LinuxUdpDatagramStream) (t : Transfer) (endpoint : UdpEndpoint) :
    Outcome LinuxUdpDatagramStream Sent :=
  match inetPton endpoint.host with
  | none => .quiet s { returned := -1 }
  | some addr => s.sendToSockaddr t ⟨addr, endpoint.port⟩

/-- `recv_from`; `read` is the same without a `source`. -/
def recvFrom (s : LinuxUdpDatagramStream) (buffer : Bool) (maxLen : Nat) (source : Bool)
    (result : RecvFrom) : Outcome LinuxUdpDatagramStream Received :=
  let taken :=
    { buffer := buffer, len := maxLen, result := result.map (·.1.length) : Transfer }.apply s s.fd
  match result with
  | .ok (bytes, sin) =>
      if taken.calls = [] then { taken with answer := {} }
      else { taken with answer :=
              { returned := taken.answer
                bytes := bytes
                source := if source then some sin.endpoint else none } }
  | .error _ => { taken with answer := { returned := taken.answer } }

def read (s : LinuxUdpDatagramStream) (buffer : Bool) (maxLen : Nat) (result : RecvFrom) :
    Outcome LinuxUdpDatagramStream Received := s.recvFrom buffer maxLen false result

end LinuxUdpDatagramStream

/-! ## Named pipes -/

def EEXIST : Int := 17

structure LinuxFifoByteStreamOptions where
  createIfMissing : Bool := true
  createMode : Nat := 0o660
  keepFdStable : Bool := true

structure LinuxFifoByteStreamStats where
  openAttempts : UInt32 := 0
  openFailures : UInt32 := 0
  eofCount : UInt32 := 0
  lastErrno : Int := 0

structure LinuxFifoByteStream where
  options : LinuxFifoByteStreamOptions
  fd : Option Nat := none
  stats : LinuxFifoByteStreamStats := {}

/-- The system calls of the constructor: the `errno` of an `mkfifo` that fails, and what
`::open` returns. -/
structure FifoEnv where
  mkfifoError : Option Int
  opened : Except Int Nat

namespace LinuxFifoByteStream

def failOpen (s : LinuxFifoByteStream) (errno : Int) : LinuxFifoByteStream :=
  { s with stats := { s.stats with
      lastErrno := errno
      openFailures := s.stats.openFailures + 1 } }

/-- `open_fifo`. -/
def openFifo (s : LinuxFifoByteStream) (env : FifoEnv) : Outcome LinuxFifoByteStream Unit :=
  let s := { s with stats := { s.stats with openAttempts := s.stats.openAttempts + 1 } }
  let refused := if s.options.createIfMissing then env.mkfifoError.filter (· != EEXIST) else none
  match refused with
  | some errno => .quiet (s.failOpen errno) ()
  | none =>
      match env.opened with
      | .error errno => .quiet (s.failOpen errno) ()
      | .ok fd => { self := { s with fd := some fd }, calls := [.acquired fd], answer := () }

/-- The constructor. -/
def create (options : LinuxFifoByteStreamOptions) (env : FifoEnv) :
    Outcome LinuxFifoByteStream Unit :=
  { options := options : LinuxFifoByteStream }.openFifo env

/-- `stats_.last_errno`, after a transfer that is reported as an error. -/
def noteError (s : LinuxFifoByteStream) (result : Except Int Nat) (returned : Int) :
    LinuxFifoByteStream :=
  match result with
  | .error errno =>
      if returned = -1 then { s with stats := { s.stats with lastErrno := errno } } else s
  | .ok _ => s

def write (s : LinuxFifoByteStream) (t : Transfer) : Outcome LinuxFifoByteStream Int :=
  let done := t.apply s s.fd
  { done with self := s.noteError t.result done.answer }

/-- `read` counts the ends of file. -/
def read (s : LinuxFifoByteStream) (t : Transfer) : Outcome LinuxFifoByteStream Int :=
  let done := s.write t
  match t.result with
  | .ok 0 =>
      if done.calls = [] then done
      else { done with self := { done.self with stats := { done.self.stats with
                eofCount := done.self.stats.eofCount + 1 } } }
  | _ => done

end LinuxFifoByteStream

/-! ## One process -/

/-- Who may hold a descriptor: a stream, or any other part of the process. -/
inductive Owner where
  | serial (i : Nat)
  | udp (i : Nat)
  | fifo (i : Nat)
  | other (i : Nat)
  deriving DecidableEq

/-- The streams of a process, and the calls made on descriptors so far, the last one in
front. No stream stands where none is constructed. -/
structure Devices where
  serials : Nat → Option LinuxSerialStream := fun _ => none
  udps : Nat → Option LinuxUdpDatagramStream := fun _ => none
  fifos : Nat → Option LinuxFifoByteStream := fun _ => none
  others : Nat → Option Nat := fun _ => none
  calls : List (Entry Nat) := []

namespace Devices

/-- The descriptors, where they are kept. -/
def cells (w : Devices) : Owner → Option Nat
  | .serial i => (w.serials i).bind LinuxSerialStream.fd
  | .udp i => (w.udps i).bind LinuxUdpDatagramStream.fd
  | .fifo i => (w.fifos i).bind LinuxFifoByteStream.fd
  | .other i => w.others i

end Devices

inductive SerialOp where
  | openPort (path : Option (List UInt8)) (baud : Nat) (env : SerialEnv)
  | close
  | read (t : Transfer)
  | write (t : Transfer)

inductive UdpOp where
  | bind (reuseAddress : Bool) (env : BindEnv)
  | close
  | setRemote (host : Option (List UInt8)) (port : UInt16)
  | write (t : Transfer)
  | sendTo (t : Transfer) (endpoint : UdpEndpoint)
  | recvFrom (buffer : Bool) (maxLen : Nat) (source : Bool) (result : RecvFrom)

inductive FifoOp where
  | read (t : Transfer)
  | write (t : Transfer)

/-- The object and the calls, whatever an operation returns. -/
def Outcome.done {σ α : Type} (out : Outcome σ α) : σ × List (Entry Nat) := (out.self, out.calls)

def SerialOp.apply (s : LinuxSerialStream) : SerialOp → LinuxSerialStream × List (Entry Nat)
  | .openPort path baud env => (s.openPort path baud env).done
  | .close => s.close.done
  | .read t => (s.read t).done
  | .write t => (s.write t).done

def UdpOp.apply (s : LinuxUdpDatagramStream) :
    UdpOp → LinuxUdpDatagramStream × List (Entry Nat)
  | .bind reuseAddress env => (s.bind reuseAddress env).done
  | .close => s.close.done
  | .setRemote host port => (s.setRemote host port).done
  | .write t => (s.write t).done
  | .sendTo t endpoint => (s.sendTo t endpoint).done
  | .recvFrom buffer maxLen source result => (s.recvFrom buffer maxLen source result).done

def FifoOp.apply (s : LinuxFifoByteStream) : FifoOp → LinuxFifoByteStream × List (Entry Nat)
  | .read t => (s.read t).done
  | .write t => (s.write t).done

/-- What happens in the process. Streams are constructed, called and destroyed in any
order; `copyUdp` is the copy constructor of `LinuxUdpDatagramStream`, and `assignUdp` its
copy assignment, from `i` to `j`. -/
inductive DeviceEvent where
  | newSerial (i : Nat)
  | serial (i : Nat) (op : SerialOp)
  | dropSerial (i : Nat)
  | newUdp (i : Nat)
  | copyUdp (i j : Nat)
  | assignUdp (i j : Nat)
  | udp (i : Nat) (op : UdpOp)
  | dropUdp (i : Nat)
  | newFifo (i : Nat) (options : LinuxFifoByteStreamOptions) (env : FifoEnv)
  | fifo (i : Nat) (op : FifoOp)
  | dropFifo (i : Nat)
  | otherOpen (i fd : Nat)
  | otherUse (i : Nat)
  | otherClose (i : Nat)

namespace Devices

/-- The calls of an event go into the list if the kernel can answer them so: it returns
no descriptor that is open. -/
def record (w : Devices) (calls : List (Entry Nat)) : Option Devices :=
  if Grants w.calls calls then some { w with calls := calls ++ w.calls } else none

def step (w : Devices) : DeviceEvent → Option Devices
  | .newSerial i =>
      match w.serials i with
      | some _ => none
      | none => some { w with serials := Function.update w.serials i (some {}) }
  | .serial i op => (w.serials i).bind fun s =>
      let done := op.apply s
      { w with serials := Function.update w.serials i (some done.1) }.record done.2
  | .dropSerial i => (w.serials i).bind fun s =>
      { w with serials := Function.update w.serials i none }.record s.close.calls
  | .newUdp i =>
      match w.udps i with
      | some _ => none
      | none => some { w with udps := Function.update w.udps i (some {}) }
  | .copyUdp i j =>
      match w.udps i, w.udps j with
      | some s, none => some { w with udps := Function.update w.udps j (some s) }
      | _, _ => none
  | .assignUdp i j =>
      match w.udps i, w.udps j with
      | some s, some _ => some { w with udps := Function.update w.udps j (some s) }
      | _, _ => none
  | .udp i op => (w.udps i).bind fun s =>
      let done := op.apply s
      { w with udps := Function.update w.udps i (some done.1) }.record done.2
  | .dropUdp i => (w.udps i).bind fun s =>
      { w with udps := Function.update w.udps i none }.record s.close.calls
  | .newFifo i options env =>
      match w.fifos i with
      | some _ => none
      | none =>
          let made := LinuxFifoByteStream.create options env
          { w with fifos := Function.update w.fifos i (some made.self) }.record made.calls
  | .fifo i op => (w.fifos i).bind fun s =>
      let done := op.apply s
      { w with fifos := Function.update w.fifos i (some done.1) }.record done.2
  | .dropFifo i => (w.fifos i).bind fun s =>
      { w with fifos := Function.update w.fifos i none }.record (closeCalls s.fd)
  | .otherOpen i fd =>
      match w.others i with
      | some _ => none
      | none => { w with others := Function.update w.others i (some fd) }.record [.acquired fd]
  | .otherUse i => (w.others i).bind fun fd => w.record [.used fd]
  | .otherClose i => (w.others i).bind fun fd =>
      { w with others := Function.update w.others i none }.record [.released fd]

/-- No datagram stream is copied while it has a socket, and none is copied to one that has. -/
def copiesNoSocket (w : Devices) : DeviceEvent → Bool
  | .copyUdp i _ => (w.cells (.udp i)).isNone
  | .assignUdp i j => (w.cells (.udp i)).isNone && (w.cells (.udp j)).isNone
  | _ => true

end Devices

/-! ## What one operation does with its descriptor -/

/-- The calls of the operation, on the descriptor that the object had, lead to the one it
has. -/
def Sound (fd : Option Nat) (calls : List (Entry Nat)) (fd' : Option Nat) : Prop :=
  cell fd calls = some fd'

theorem close_sound (fd : Option Nat) : Sound fd (closeCalls fd) none := by
  cases fd <;> simp [Sound, closeCalls, cell, Entry.apply]

theorem Sound.trans {a b c : Option Nat} {calls calls' : List (Entry Nat)}
    (h : Sound a calls b) (h' : Sound b calls' c) : Sound a (calls' ++ calls) c := by
  rw [Sound, cell_append, h]
  exact h'

theorem used_sound (fd : Nat) : Sound (some fd) [.used fd] (some fd) := by
  simp [Sound, cell, Entry.apply]

theorem acquired_sound (fd : Nat) : Sound none [.acquired fd] (some fd) := rfl

theorem transfer_self {σ : Type} (t : Transfer) (self : σ) (fd : Option Nat) :
    (t.apply self fd).self = self := by
  unfold Transfer.apply
  split
  · rfl
  · split <;> rfl

theorem transfer_sound {σ : Type} (t : Transfer) (self : σ) (fd : Option Nat) :
    Sound fd (t.apply self fd).calls fd := by
  unfold Transfer.apply
  split
  · rfl
  · rename_i fd
    split
    · rfl
    · exact used_sound fd

theorem configure_sound (fd : Nat) (speed : Speed) (env : SerialEnv) :
    Sound (some fd) (LinuxSerialStream.configure fd speed env).1 (some fd) := by
  unfold LinuxSerialStream.configure
  split
  · exact used_sound fd
  · dsimp only
    split
    · exact (used_sound fd).trans (used_sound fd)
    · exact used_sound fd

theorem openPort_sound (s : LinuxSerialStream) (path : Option (List UInt8)) (baud : Nat)
    (env : SerialEnv) :
    Sound s.fd (s.openPort path baud env).calls (s.openPort path baud env).self.fd := by
  have hclose : Sound s.fd s.close.calls none := close_sound s.fd
  unfold LinuxSerialStream.openPort
  split
  · exact hclose
  · exact hclose
  · split
    · rename_i speed fd _ _
      have hconfigure := configure_sound fd speed env
      have hopened := (hclose.trans (acquired_sound fd)).trans hconfigure
      split
      · rename_i hresult
        rw [hresult] at hopened
        exact hopened
      · rename_i hresult
        rw [hresult] at hopened
        exact hopened.trans (close_sound (some fd))
    · exact hclose

theorem serial_sound (s : LinuxSerialStream) (op : SerialOp) :
    Sound s.fd (op.apply s).2 (op.apply s).1.fd := by
  have htransfer (t : Transfer) : Sound s.fd (t.apply s s.fd).calls (t.apply s s.fd).self.fd := by
    rw [transfer_self]
    exact transfer_sound t s s.fd
  cases op with
  | openPort path baud env => exact openPort_sound s path baud env
  | close => exact close_sound s.fd
  | read t => exact htransfer t
  | write t => exact htransfer t

theorem bind_sound (s : LinuxUdpDatagramStream) (reuseAddress : Bool) (env : BindEnv) :
    Sound s.fd (s.bind reuseAddress env).calls (s.bind reuseAddress env).self.fd := by
  have hclose : Sound s.fd s.close.calls none := close_sound s.fd
  unfold LinuxUdpDatagramStream.bind
  split
  · exact hclose
  · rename_i fd _
    have hused := used_sound fd
    have hoptions : Sound (some fd)
        (if reuseAddress then [.used fd, .used fd] else [.used fd]) (some fd) := by
      split
      · exact hused.trans hused
      · exact hused
    have hbound := ((hclose.trans (acquired_sound fd)).trans hoptions).trans hused
    dsimp only
    split
    · refine hbound.trans ?_
      unfold LinuxUdpDatagramStream.nonblockingCalls
      split
      · exact hused.trans hused
      · exact hused
    · exact hbound.trans (close_sound (some fd))

theorem sendToSockaddr_sound (s : LinuxUdpDatagramStream) (t : Transfer) (sin : SockAddr) :
    Sound s.fd (s.sendToSockaddr t sin).calls (s.sendToSockaddr t sin).self.fd := by
  have hself : (s.sendToSockaddr t sin).self = s := transfer_self t s s.fd
  rw [hself]
  exact transfer_sound t s s.fd

theorem udp_sound (s : LinuxUdpDatagramStream) (op : UdpOp) :
    Sound s.fd (op.apply s).2 (op.apply s).1.fd := by
  cases op with
  | bind reuseAddress env => exact bind_sound s reuseAddress env
  | close => exact close_sound s.fd
  | setRemote host port =>
      unfold UdpOp.apply LinuxUdpDatagramStream.setRemote
      dsimp only
      split
      · rfl
      · split <;> rfl
  | write t =>
      unfold UdpOp.apply LinuxUdpDatagramStream.write
      dsimp only
      split
      · exact sendToSockaddr_sound s t s.remote
      · rfl
  | sendTo t endpoint =>
      unfold UdpOp.apply LinuxUdpDatagramStream.sendTo
      dsimp only
      split
      · rfl
      · rename_i addr _
        exact sendToSockaddr_sound s t ⟨addr, endpoint.port⟩
  | recvFrom buffer maxLen source result =>
      have htransfer (t : Transfer) :
          Sound s.fd (t.apply s s.fd).calls (t.apply s s.fd).self.fd := by
        rw [transfer_self]
        exact transfer_sound t s s.fd
      unfold UdpOp.apply LinuxUdpDatagramStream.recvFrom
      dsimp only
      split
      · split <;> exact htransfer _
      · exact htransfer _

theorem noteError_fd (s : LinuxFifoByteStream) (result : Except Int Nat) (returned : Int) :
    (s.noteError result returned).fd = s.fd := by
  unfold LinuxFifoByteStream.noteError
  split
  · split <;> rfl
  · rfl

theorem fifo_sound (s : LinuxFifoByteStream) (op : FifoOp) :
    Sound s.fd (op.apply s).2 (op.apply s).1.fd := by
  have hwrite (t : Transfer) : Sound s.fd (s.write t).calls (s.write t).self.fd := by
    have hfd : (s.write t).self.fd = s.fd := noteError_fd s _ _
    rw [hfd]
    exact transfer_sound t s s.fd
  cases op with
  | read t =>
      unfold FifoOp.apply LinuxFifoByteStream.read
      dsimp only
      split
      · split <;> exact hwrite t
      · exact hwrite t
  | write t => exact hwrite t

theorem create_sound (options : LinuxFifoByteStreamOptions) (env : FifoEnv) :
    Sound none (LinuxFifoByteStream.create options env).calls
      (LinuxFifoByteStream.create options env).self.fd := by
  unfold LinuxFifoByteStream.create LinuxFifoByteStream.openFifo
  dsimp only
  split
  · rfl
  · split
    · rfl
    · exact acquired_sound _

/-! ## All runs -/

namespace Devices

theorem cells_serials (w : Devices) (i : Nat) (s : Option LinuxSerialStream) :
    { w with serials := Function.update w.serials i s : Devices }.cells
      = Function.update w.cells (.serial i) (s.bind LinuxSerialStream.fd) := by
  funext owner
  cases owner with
  | serial j => by_cases h : j = i <;> simp [cells, Function.update, h]
  | udp j => rfl
  | fifo j => rfl
  | other j => rfl

theorem cells_udps (w : Devices) (i : Nat) (s : Option LinuxUdpDatagramStream) :
    { w with udps := Function.update w.udps i s : Devices }.cells
      = Function.update w.cells (.udp i) (s.bind LinuxUdpDatagramStream.fd) := by
  funext owner
  cases owner with
  | udp j => by_cases h : j = i <;> simp [cells, Function.update, h]
  | serial j => rfl
  | fifo j => rfl
  | other j => rfl

theorem cells_fifos (w : Devices) (i : Nat) (s : Option LinuxFifoByteStream) :
    { w with fifos := Function.update w.fifos i s : Devices }.cells
      = Function.update w.cells (.fifo i) (s.bind LinuxFifoByteStream.fd) := by
  funext owner
  cases owner with
  | fifo j => by_cases h : j = i <;> simp [cells, Function.update, h]
  | serial j => rfl
  | udp j => rfl
  | other j => rfl

theorem cells_others (w : Devices) (i : Nat) (fd : Option Nat) :
    { w with others := Function.update w.others i fd : Devices }.cells
      = Function.update w.cells (.other i) fd := by
  funext owner
  cases owner with
  | other j => by_cases h : j = i <;> simp [cells, Function.update, h]
  | serial j => rfl
  | udp j => rfl
  | fifo j => rfl

/-- A stream that comes without a descriptor. -/
theorem same_books {w v : Devices} {owner : Owner} {fd : Option Nat} (h : Books w.calls w.cells)
    (hcells : v.cells = Function.update w.cells owner fd) (hcalls : v.calls = w.calls)
    (hcell : w.cells owner = fd) : Books v.calls v.cells := by
  have hsame : v.cells = w.cells := by rw [hcells, ← hcell, Function.update_eq_self]
  rw [hsame, hcalls]
  exact h

/-- **One event**: who holds what, and what the kernel has open, go on agreeing. -/
theorem record_books {w v w' : Devices} {owner : Owner} {fd' : Option Nat}
    {calls : List (Entry Nat)} (h : Books w.calls w.cells)
    (hcells : v.cells = Function.update w.cells owner fd') (hcalls : v.calls = w.calls)
    (hsound : Sound (w.cells owner) calls fd') (hrecord : v.record calls = some w') :
    Books w'.calls w'.cells := by
  unfold record at hrecord
  split at hrecord
  · rename_i hgrants
    obtain rfl := Option.some.inj hrecord
    have hentries : (calls.map (Prod.mk owner)).map Prod.snd = calls := by simp
    have hpost := h.post (keeps_of_cell hsound) (by rw [hentries, ← hcalls]; exact hgrants)
    rw [hentries, ← hcells, ← hcalls] at hpost
    exact hpost
  · cases hrecord

theorem step_books {w w' : Devices} {e : DeviceEvent} (h : Books w.calls w.cells)
    (hstep : restrict copiesNoSocket step w e = some w') : Books w'.calls w'.cells := by
  obtain ⟨hcopies, hstep⟩ := restrict_eq_some.mp hstep
  cases e with
  | newSerial i =>
      simp only [step] at hstep
      split at hstep
      · cases hstep
      · rename_i hnone
        obtain rfl := Option.some.inj hstep
        refine same_books h (cells_serials w i _) rfl ?_
        rw [cells, hnone]
        rfl
  | serial i op =>
      obtain ⟨s, hs, hrecord⟩ := Option.bind_eq_some_iff.mp hstep
      refine record_books h (cells_serials w i _) rfl ?_ hrecord
      rw [cells, hs]
      exact serial_sound s op
  | dropSerial i =>
      obtain ⟨s, hs, hrecord⟩ := Option.bind_eq_some_iff.mp hstep
      refine record_books h (cells_serials w i _) rfl ?_ hrecord
      rw [cells, hs]
      exact close_sound s.fd
  | newUdp i =>
      simp only [step] at hstep
      split at hstep
      · cases hstep
      · rename_i hnone
        obtain rfl := Option.some.inj hstep
        refine same_books h (cells_udps w i _) rfl ?_
        rw [cells, hnone]
        rfl
  | copyUdp i j =>
      simp only [step] at hstep
      split at hstep
      · rename_i s hs hnone
        obtain rfl := Option.some.inj hstep
        have hfd : (some s).bind LinuxUdpDatagramStream.fd = none :=
          hs ▸ Option.isNone_iff_eq_none.mp hcopies
        refine same_books h (cells_udps w j _) rfl ?_
        rw [cells, hnone]
        exact hfd.symm
      · cases hstep
  | assignUdp i j =>
      simp only [step] at hstep
      split at hstep
      · rename_i s t hs ht
        obtain rfl := Option.some.inj hstep
        obtain ⟨hsource, htarget⟩ := Bool.and_eq_true_iff.mp hcopies
        have hfd : (some s).bind LinuxUdpDatagramStream.fd = none :=
          hs ▸ Option.isNone_iff_eq_none.mp hsource
        refine same_books h (cells_udps w j _) rfl ?_
        rw [hfd]
        exact Option.isNone_iff_eq_none.mp htarget
      · cases hstep
  | udp i op =>
      obtain ⟨s, hs, hrecord⟩ := Option.bind_eq_some_iff.mp hstep
      refine record_books h (cells_udps w i _) rfl ?_ hrecord
      rw [cells, hs]
      exact udp_sound s op
  | dropUdp i =>
      obtain ⟨s, hs, hrecord⟩ := Option.bind_eq_some_iff.mp hstep
      refine record_books h (cells_udps w i _) rfl ?_ hrecord
      rw [cells, hs]
      exact close_sound s.fd
  | newFifo i options env =>
      simp only [step] at hstep
      split at hstep
      · cases hstep
      · rename_i hnone
        refine record_books h (cells_fifos w i _) rfl ?_ hstep
        rw [cells, hnone]
        exact create_sound options env
  | fifo i op =>
      obtain ⟨s, hs, hrecord⟩ := Option.bind_eq_some_iff.mp hstep
      refine record_books h (cells_fifos w i _) rfl ?_ hrecord
      rw [cells, hs]
      exact fifo_sound s op
  | dropFifo i =>
      obtain ⟨s, hs, hrecord⟩ := Option.bind_eq_some_iff.mp hstep
      refine record_books h (cells_fifos w i _) rfl ?_ hrecord
      rw [cells, hs]
      exact close_sound s.fd
  | otherOpen i fd =>
      simp only [step] at hstep
      split at hstep
      · cases hstep
      · rename_i hnone
        refine record_books h (cells_others w i _) rfl ?_ hstep
        rw [cells, hnone]
        exact acquired_sound fd
  | otherUse i =>
      obtain ⟨fd, hfd, hrecord⟩ := Option.bind_eq_some_iff.mp hstep
      have hcell : w.cells (.other i) = some fd := hfd
      have hkept : w.cells = Function.update w.cells (.other i) (some fd) := by
        rw [← hcell, Function.update_eq_self]
      refine record_books h hkept rfl ?_ hrecord
      rw [hcell]
      exact used_sound fd
  | otherClose i =>
      obtain ⟨fd, hfd, hrecord⟩ := Option.bind_eq_some_iff.mp hstep
      refine record_books h (cells_others w i _) rfl ?_ hrecord
      rw [cells, hfd]
      exact close_sound (some fd)

/-- **Every descriptor is closed once, and used by its owner only**: whatever streams a
process constructs, opens, reads, writes, closes and destroys, in any order and whatever
its system calls return, as long as no datagram stream is copied while it has a socket, or
to one that has a socket.
The descriptors that are open are those the streams and the other parts hold, each of them
one of its own; each was open at every call made on it; and each has been closed as often
as it was handed out, but for those that are open. -/
theorem descriptors_balance {w : Devices} {es : List DeviceEvent}
    (hrun : run (restrict copiesNoSocket step) {} es = some w) :
    ∃ s, held w.calls = some s
      ∧ (∀ fd, fd ∈ s ↔ ∃ owner, w.cells owner = some fd)
      ∧ (∀ a b fd, w.cells a = some fd → w.cells b = some fd → a = b)
      ∧ (∀ fd, w.calls.count (.acquired fd)
          = w.calls.count (.released fd) + if fd ∈ s then 1 else 0)
      ∧ ∀ later earlier call fd, w.calls = later ++ call :: earlier →
          call = .used fd ∨ call = .released fd → ∃ s', held earlier = some s' ∧ fd ∈ s' := by
  have hbooks : Books w.calls w.cells := by
    refine run_invariant (fun _ _ _ h hstep => step_books h hstep) ?_ hrun
    have hempty : (({} : Devices).cells) = fun _ => none := by
      funext owner
      cases owner <;> rfl
    rw [hempty]
    exact books_nil
  obtain ⟨⟨s, hs, hmem⟩, honce⟩ := hbooks
  refine ⟨s, hs, hmem, honce, count_acquired hs, fun later earlier call fd hcalls hcall => ?_⟩
  rw [hcalls] at hs
  exact held_before hcall hs

/-- A port whose attributes cannot be set gives its number back, and a socket gets it. -/
def portThenSocket : List DeviceEvent :=
  [.newSerial 0, .newUdp 0, .newUdp 1,
    .serial 0 (.openPort (some [47]) 9600 ⟨.ok 3, none, true, true, true⟩),
    .udp 0 (.bind true ⟨.ok 3, true, true⟩),
    .serial 0 (.read ⟨true, 8, .ok 8⟩),
    .udp 1 (.bind true ⟨.ok 4, false, true⟩)]

theorem descriptors_balance_run :
    ∃ w, run (restrict copiesNoSocket step) {} portThenSocket = some w
      ∧ ∃ s, held w.calls = some s ∧ ∀ fd, fd ∈ s ↔ ∃ owner, w.cells owner = some fd := by
  obtain ⟨w, hw⟩ : ∃ w, run (restrict copiesNoSocket step) {} portThenSocket = some w :=
    ⟨_, rfl⟩
  obtain ⟨s, hs, hmem, -⟩ := descriptors_balance hw
  exact ⟨w, hw, s, hs, hmem⟩

/-- A copy of a bound stream closes the socket a second time; the socket of one that is
assigned to is never closed. -/
example :
    (run step {} [.newUdp 0, .udp 0 (.bind true ⟨.ok 3, true, true⟩), .copyUdp 0 1, .dropUdp 0,
        .dropUdp 1]).map (fun w => held w.calls) = some none
      ∧ (run step {} [.newUdp 0, .udp 0 (.bind true ⟨.ok 3, true, true⟩), .newUdp 1,
        .assignUdp 1 0, .dropUdp 0, .dropUdp 1]).map (fun w => held w.calls) = some (some {3}) := by
  decide

end Devices

end AsyncEventLoop
