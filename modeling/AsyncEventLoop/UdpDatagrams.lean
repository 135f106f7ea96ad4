import AsyncEventLoop.Mailbox
import AsyncEventLoop.LinuxDescriptors

/-!
# Datagrams on both platforms

`LinuxUdpDatagramStream` lets the kernel keep the datagrams that have arrived, and
`readable()` says only that it is bound. `ArduinoWiFiUdpDatagramStream` asks the `WiFiUDP`
of the Arduino core for the next one, in `readable()` already, and keeps its size until it
is read. A callback that reads while `readable()` says so gets the same datagrams on both,
each of them once, in the order of their arrival, and from their senders
(`datagrams_delivered`).
-/

namespace AsyncEventLoop

open Runs Mailbox DottedQuad

/-- A datagram that arrives; UDP carries no more bytes in one. -/
structure Datagram where
  payload : List UInt8
  source : SockAddr
  sound : payload.length ≤ 65507

/-- What a callback gets of a datagram. -/
abbrev Heard := List UInt8 × UdpEndpoint

/-- The callback stops at `n <= 0`. -/
def Received.heard (r : Received) : Option Heard :=
  if r.returned ≤ 0 then none else some (r.bytes, r.source.getD {})

/-- What a callback with a buffer of `maxLen` bytes should get of a datagram. -/
def Datagram.told (maxLen : Nat) (d : Datagram) : Option Heard :=
  if d.payload = [] then none else some (d.payload.take maxLen, d.source.endpoint)

/-! ## Linux -/

def LinuxUdpDatagramStream.readable (s : LinuxUdpDatagramStream) : Bool := s.fd.isSome

/-- A stream and what the kernel has for its socket. -/
structure LinuxUdpSocket where
  stream : LinuxUdpDatagramStream
  queue : List Datagram := []

/-- `recvfrom` on a socket that does not block. -/
def recvfrom (queue : List Datagram) (maxLen : Nat) : RecvFrom :=
  match queue with
  | [] => .error EAGAIN
  | d :: _ => .ok (d.payload.take maxLen, d.source)

def linuxUdp (maxLen : Nat) : Box LinuxUdpSocket Datagram Heard where
  arrive s d := { s with queue := s.queue ++ [d] }
  ready s := (s.stream.readable, s)
  take s :=
    let received := s.stream.recvFrom true maxLen true (recvfrom s.queue maxLen)
    (received.answer.heard,
      { stream := received.self
        queue := if received.calls = [] then s.queue else s.queue.tail })

/-! ## Arduino -/

/-- `WiFiUDP` and `IPAddress::fromString` of the Arduino core, which are not part of the
repository. `remote` is `remoteIP` and `remotePort`; `receive` is what the network does. -/
structure WiFiUdp (υ : Type) where
  start : υ → UInt16 → Bool × υ
  stop : υ → υ
  parsePacket : υ → Int × υ
  read : υ → Nat → (Int × List UInt8) × υ
  remote : υ → SockAddr
  beginPacket : υ → SockAddr → Bool × υ
  write : υ → List UInt8 → Nat × υ
  endPacket : υ → Bool × υ
  fromString : List UInt8 → Option Address
  receive : υ → Datagram → υ

structure ArduinoWiFiUdpDatagramStream (υ : Type) where
  udp : υ
  packetSize : Int := 0
  bound : Bool := false
  hasRemote : Bool := false
  remoteIp : Address := {}
  remotePort : UInt16 := 0

namespace ArduinoWiFiUdpDatagramStream

variable {υ : Type} (wifi : WiFiUdp υ) (s : ArduinoWiFiUdpDatagramStream υ)

def bind (localPort : UInt16) : Bool × ArduinoWiFiUdpDatagramStream υ :=
  let begun := wifi.start s.udp localPort
  (begun.1, { s with udp := begun.2, bound := begun.1 })

def close : ArduinoWiFiUdpDatagramStream υ :=
  { s with
    udp := wifi.stop s.udp
    packetSize := 0
    bound := false
    hasRemote := false
    remotePort := 0 }

/-- The address a host stands for. -/
def address (host : List UInt8) : Option Address :=
  if host = "255.255.255.255".toList.map Char.toUInt8 then some ⟨255, 255, 255, 255⟩
  else wifi.fromString host

def setRemote (host : Option (List UInt8)) (port : UInt16) :
    Bool × ArduinoWiFiUdpDatagramStream υ :=
  match host with
  | none => (false, s)
  | some host =>
      if port = 0 then (false, s)
      else
        match address wifi host with
        | none => (false, s)
        | some ip => (true, { s with remoteIp := ip, remotePort := port, hasRemote := true })

/-- `send_to_ip`; `src` is none for a null pointer. -/
def sendToIp (src : Option (List UInt8)) (ip : Address) (port : UInt16) :
    Sent × ArduinoWiFiUdpDatagramStream υ :=
  match src with
  | none | some [] => ({ returned := 0 }, s)
  | some bytes =>
      if !s.bound || port = 0 then ({ returned := 0 }, s)
      else
        let begun := wifi.beginPacket s.udp ⟨ip, port⟩
        if !begun.1 then ({ dest := some ⟨ip, port⟩, returned := -1 }, { s with udp := begun.2 })
        else
          let written := wifi.write begun.2 bytes
          let ended := wifi.endPacket written.2
          ({ dest := some ⟨ip, port⟩
             returned := if ended.1 then (written.1 : Int).bmod (2 ^ 32) else -1 },
            { s with udp := ended.2 })

def write (src : Option (List UInt8)) : Sent × ArduinoWiFiUdpDatagramStream υ :=
  if s.hasRemote then s.sendToIp wifi src s.remoteIp s.remotePort else ({ returned := 0 }, s)

def sendTo (src : Option (List UInt8)) (endpoint : UdpEndpoint) :
    Sent × ArduinoWiFiUdpDatagramStream υ :=
  match address wifi endpoint.host with
  | none => ({ returned := -1 }, s)
  | some ip => s.sendToIp wifi src ip endpoint.port

/-- `if (packet_size_ <= 0) packet_size_ = udp_.parsePacket();` -/
def lookForPacket : ArduinoWiFiUdpDatagramStream υ :=
  if s.packetSize ≤ 0 then
    let parsed := wifi.parsePacket s.udp
    { s with packetSize := parsed.1, udp := parsed.2 }
  else s

/-- `readable`, which may ask for the next packet. -/
def readable : Bool × ArduinoWiFiUdpDatagramStream υ :=
  if !s.bound then (false, s)
  else
    let s := s.lookForPacket wifi
    (0 < s.packetSize, s)

/-- `snprintf` and `remotePort()` have the sender as `SockAddr.endpoint` has it. -/
def recvFrom (buffer : Bool) (maxLen : Nat) (source : Bool) :
    Received × ArduinoWiFiUdpDatagramStream υ :=
  if !s.bound || !buffer || maxLen = 0 then ({}, s)
  else
    let s := s.lookForPacket wifi
    if s.packetSize ≤ 0 then ({}, s)
    else
      let taken := wifi.read s.udp maxLen
      ({ returned := taken.1.1
         bytes := taken.1.2
         source := if source && 0 ≤ taken.1.1 then some (wifi.remote taken.2).endpoint else none },
        { s with packetSize := 0, udp := taken.2 })

def read (buffer : Bool) (maxLen : Nat) : Received × ArduinoWiFiUdpDatagramStream υ :=
  s.recvFrom wifi buffer maxLen false

end ArduinoWiFiUdpDatagramStream

variable {υ : Type} {wifi : WiFiUdp υ}

def arduinoUdp (wifi : WiFiUdp υ) (maxLen : Nat) :
    Box (ArduinoWiFiUdpDatagramStream υ) Datagram Heard where
  arrive s d := { s with udp := wifi.receive s.udp d }
  ready s := s.readable wifi
  take s :=
    let received := s.recvFrom wifi true maxLen true
    (received.1.heard, received.2)

/-- What is relied on of `WiFiUDP`: it keeps what arrives in order; `parsePacket` goes on to
the next packet once the one before was read whole, and returns its size; `read` into a
buffer that is large enough reads the packet whole, and `remote` is its sender. `view` is the
packet that is being read and those behind it. -/
structure WiFiUdp.Documented (wifi : WiFiUdp υ)
    (view : υ → Option Datagram × List Datagram) : Prop where
  receive : ∀ u d, view (wifi.receive u d) = ((view u).1, (view u).2 ++ [d])
  parse_none : ∀ u, view u = (none, []) →
    (wifi.parsePacket u).1 ≤ 0 ∧ view (wifi.parsePacket u).2 = (none, [])
  parse_next : ∀ u d rest, view u = (none, d :: rest) →
    (wifi.parsePacket u).1 = d.payload.length
      ∧ view (wifi.parsePacket u).2 = (if d.payload = [] then none else some d, rest)
  read_whole : ∀ u d rest n, view u = (some d, rest) → d.payload.length ≤ n →
    (wifi.read u n).1 = ((d.payload.length : Int), d.payload)
      ∧ view (wifi.read u n).2 = (none, rest) ∧ wifi.remote (wifi.read u n).2 = d.source

/-! ## What a callback hears -/

theorem told_eq {maxLen : Nat} (hmax : 0 < maxLen) (d : Datagram) :
    d.told maxLen = if d.payload.take maxLen = [] then none
      else some (d.payload.take maxLen, d.source.endpoint) := by
  simp [Datagram.told, hmax.ne']

theorem heard_whole (bytes : List UInt8) (sender : UdpEndpoint) :
    Received.heard { returned := bytes.length, bytes := bytes, source := some sender }
      = if bytes = [] then none else some (bytes, sender) := by
  cases bytes with
  | nil => rfl
  | cons b bytes => exact if_neg (by simp only [List.length_cons]; omega)

/-- A length that `int` can hold. -/
theorem transferred_ok {n : Nat} (h : n ≤ 65507) : transferred (.ok n) = n := by
  unfold transferred
  exact Int.bmod_eq_of_le (by omega) (by omega)

theorem transferred_again : transferred (.error EAGAIN) = 0 := rfl

theorem recvFrom_bound {s : LinuxUdpDatagramStream} {fd : Nat} (hfd : s.fd = some fd)
    {maxLen : Nat} (hmax : 0 < maxLen) (result : RecvFrom) :
    s.recvFrom true maxLen true result =
      { self := s
        calls := [.used fd]
        answer :=
          match result with
          | .ok (bytes, sin) =>
              { returned := transferred (.ok bytes.length)
                bytes := bytes
                source := some sin.endpoint }
          | .error errno => { returned := transferred (.error errno) } } := by
  cases result <;>
    simp [LinuxUdpDatagramStream.recvFrom, Transfer.apply, hfd, hmax.ne', Except.map]

theorem linuxUdp_take {maxLen : Nat} (hmax : 0 < maxLen) {s : LinuxUdpSocket} {fd : Nat}
    (hfd : s.stream.fd = some fd) :
    (linuxUdp maxLen).take s
      = ((s.queue.head?.bind (Datagram.told maxLen)), { s with queue := s.queue.tail }) := by
  have hreceived := recvFrom_bound hfd hmax (recvfrom s.queue maxLen)
  simp only [linuxUdp, hreceived]
  cases hqueue : s.queue with
  | nil =>
      simp only [recvfrom, transferred_again]
      rfl
  | cons d rest =>
      have hlength : (d.payload.take maxLen).length ≤ 65507 := by
        have hpayload := d.sound
        rw [List.length_take]
        omega
      have hheard := heard_whole (d.payload.take maxLen) d.source.endpoint
      rw [← told_eq hmax, ← transferred_ok hlength] at hheard
      simp only [recvfrom, hheard]
      rfl

theorem linuxUdp_lawful {maxLen : Nat} (hmax : 0 < maxLen) :
    Lawful (linuxUdp maxLen) (fun s => s.stream.fd.isSome) LinuxUdpSocket.queue
      (fun _ => True) (Datagram.told maxLen) where
  arrive s d hs _ := ⟨hs, rfl⟩
  ready s hs := by
    refine ⟨hs, .inl ⟨fun hfalse => ?_, rfl⟩⟩
    rw [show ((linuxUdp maxLen).ready s).1 = s.stream.fd.isSome from rfl, hs] at hfalse
    cases hfalse
  take s hs := by
    obtain ⟨fd, hfd⟩ := Option.isSome_iff_exists.mp hs
    rw [linuxUdp_take hmax hfd]
    refine ⟨hs, ?_⟩
    cases hqueue : s.queue with
    | nil => exact .inl ⟨rfl, rfl, rfl⟩
    | cons d rest => exact .inr ⟨d, rfl, rfl⟩

/-- What the Arduino core has for the stream: the packet it has asked for, and the rest. -/
def arduinoPending (view : υ → Option Datagram × List Datagram)
    (s : ArduinoWiFiUdpDatagramStream υ) : List Datagram :=
  (view s.udp).1.toList ++ (view s.udp).2

/-- A bound stream: `packet_size_` is the size of the packet that is being read, and what is
there fits the buffer. -/
structure Awaits (view : υ → Option Datagram × List Datagram) (maxLen : Nat)
    (s : ArduinoWiFiUdpDatagramStream υ) : Prop where
  bound : s.bound = true
  size : match (view s.udp).1 with
    | none => s.packetSize ≤ 0
    | some d => s.packetSize = d.payload.length ∧ d.payload ≠ []
  fits : ∀ d ∈ arduinoPending view s, d.payload.length ≤ maxLen

section Arduino

variable {view : υ → Option Datagram × List Datagram} {maxLen : Nat}
  {s : ArduinoWiFiUdpDatagramStream υ}

/-- `lookForPacket` finds the first packet, or that there is none, or drops an empty one. -/
theorem lookForPacket_cases (h : wifi.Documented view) (hs : Awaits view maxLen s) :
    Awaits view maxLen (s.lookForPacket wifi) ∧
      ((∃ d, (view (s.lookForPacket wifi).udp).1 = some d
          ∧ arduinoPending view (s.lookForPacket wifi) = arduinoPending view s)
        ∨ (s.lookForPacket wifi).packetSize ≤ 0
          ∧ (arduinoPending view s = [] ∧ arduinoPending view (s.lookForPacket wifi) = []
            ∨ ∃ d : Datagram, d.payload = []
              ∧ arduinoPending view s = d :: arduinoPending view (s.lookForPacket wifi))) := by
  obtain ⟨hbound, hsize, hfits⟩ := hs
  cases hview : view s.udp with
  | mk current queue =>
      have hpending : arduinoPending view s = current.toList ++ queue := by
        rw [arduinoPending, hview]
      cases current with
      | some d =>
          rw [hview] at hsize
          have hpositive : ¬ s.packetSize ≤ 0 := by
            have hlength := List.length_pos_iff.mpr hsize.2
            rw [hsize.1]
            omega
          have hsame : s.lookForPacket wifi = s := if_neg hpositive
          rw [hsame]
          refine ⟨⟨hbound, by rw [hview]; exact hsize, hfits⟩, .inl ⟨d, ?_, rfl⟩⟩
          rw [hview]
      | none =>
          rw [hview] at hsize
          have hlook : s.lookForPacket wifi = { s with
              packetSize := (wifi.parsePacket s.udp).1
              udp := (wifi.parsePacket s.udp).2 } := if_pos hsize
          rw [hlook]
          cases queue with
          | nil =>
              obtain ⟨hnone, hparsed⟩ := h.parse_none _ hview
              have hafter : arduinoPending view { s with
                  packetSize := (wifi.parsePacket s.udp).1
                  udp := (wifi.parsePacket s.udp).2 } = [] := by
                rw [arduinoPending, hparsed]
                rfl
              refine ⟨⟨hbound, by rw [hparsed]; exact hnone, ?_⟩,
                .inr ⟨hnone, .inl ⟨hpending, hafter⟩⟩⟩
              rw [hafter]
              exact List.forall_mem_nil _
          | cons d rest =>
              obtain ⟨hlength, hparsed⟩ := h.parse_next _ _ _ hview
              by_cases hpayload : d.payload = []
              · rw [if_pos hpayload] at hparsed
                have hzero : (wifi.parsePacket s.udp).1 ≤ 0 := by
                  rw [hlength, hpayload]
                  exact le_rfl
                have hafter : arduinoPending view { s with
                    packetSize := (wifi.parsePacket s.udp).1
                    udp := (wifi.parsePacket s.udp).2 } = rest := by
                  rw [arduinoPending, hparsed]
                  rfl
                refine ⟨⟨hbound, by rw [hparsed]; exact hzero, ?_⟩,
                  .inr ⟨hzero, .inr ⟨d, hpayload, by rw [hafter]; exact hpending⟩⟩⟩
                rw [hafter]
                rw [hpending] at hfits
                exact (List.forall_mem_cons.mp hfits).2
              · rw [if_neg hpayload] at hparsed
                have hafter : arduinoPending view { s with
                    packetSize := (wifi.parsePacket s.udp).1
                    udp := (wifi.parsePacket s.udp).2 } = arduinoPending view s := by
                  rw [hpending, arduinoPending, hparsed]
                  rfl
                refine ⟨⟨hbound, by rw [hparsed]; exact ⟨hlength, hpayload⟩, ?_⟩,
                  .inl ⟨d, by rw [hparsed], hafter⟩⟩
                rw [hafter]
                exact hfits

theorem told_whole {d : Datagram} (hd : d.payload.length ≤ maxLen) :
    d.told maxLen = if d.payload = [] then none else some (d.payload, d.source.endpoint) := by
  rw [Datagram.told, List.take_of_length_le hd]

/-- `recv_from` when a packet is found. -/
theorem recvFrom_found (h : wifi.Documented view) (hmax : 0 < maxLen) (hbound : s.bound = true)
    (hs : Awaits view maxLen (s.lookForPacket wifi)) {d : Datagram}
    (hfound : (view (s.lookForPacket wifi).udp).1 = some d) :
    (s.recvFrom wifi true maxLen true).1.heard = d.told maxLen
      ∧ Awaits view maxLen (s.recvFrom wifi true maxLen true).2
      ∧ arduinoPending view (s.lookForPacket wifi)
        = d :: arduinoPending view (s.recvFrom wifi true maxLen true).2 := by
  obtain ⟨hlooked, hsize, hfits⟩ := hs
  rw [hfound] at hsize
  have hpositive : ¬ (s.lookForPacket wifi).packetSize ≤ 0 := by
    have hlength := List.length_pos_iff.mpr hsize.2
    rw [hsize.1]
    omega
  have hpending : arduinoPending view (s.lookForPacket wifi)
      = d :: (view (s.lookForPacket wifi).udp).2 := by
    rw [arduinoPending, hfound]
    rfl
  have hd : d.payload.length ≤ maxLen := hfits d (by rw [hpending]; exact List.mem_cons_self)
  obtain ⟨hread, hview, hremote⟩ := h.read_whole (s.lookForPacket wifi).udp d
    (view (s.lookForPacket wifi).udp).2 maxLen (Prod.ext hfound rfl) hd
  have hreceived : s.recvFrom wifi true maxLen true =
      ({ returned := d.payload.length, bytes := d.payload, source := some d.source.endpoint },
        { s.lookForPacket wifi with
          packetSize := 0
          udp := (wifi.read (s.lookForPacket wifi).udp maxLen).2 }) := by
    have hreturned : (0 : Int) ≤ d.payload.length := by omega
    simp [ArduinoWiFiUdpDatagramStream.recvFrom, hbound, hmax.ne', hpositive, hread, hremote,
      hreturned]
  have hafter : arduinoPending view { s.lookForPacket wifi with
      packetSize := 0
      udp := (wifi.read (s.lookForPacket wifi).udp maxLen).2 }
      = (view (s.lookForPacket wifi).udp).2 := by
    rw [arduinoPending, hview]
    rfl
  rw [hreceived]
  refine ⟨?_, ⟨hlooked, by rw [hview], ?_⟩, ?_⟩
  · rw [heard_whole, told_whole hd]
  · rw [hafter]
    rw [hpending] at hfits
    exact (List.forall_mem_cons.mp hfits).2
  · rw [hafter, hpending]

theorem arduinoUdp_lawful (h : wifi.Documented view) (hmax : 0 < maxLen) :
    Lawful (arduinoUdp wifi maxLen) (Awaits view maxLen) (arduinoPending view)
      (fun d => d.payload.length ≤ maxLen) (Datagram.told maxLen) where
  arrive s d hs hd := by
    have hview := h.receive s.udp d
    have hpending : arduinoPending view ((arduinoUdp wifi maxLen).arrive s d)
        = arduinoPending view s ++ [d] := by
      simp only [arduinoPending, arduinoUdp, hview, List.append_assoc]
    refine ⟨⟨hs.bound, ?_, ?_⟩, hpending⟩
    · simp only [arduinoUdp, hview]
      exact hs.size
    · rw [hpending]
      intro d' hd'
      rcases List.mem_append.mp hd' with hold | hnew
      · exact hs.fits d' hold
      · rw [List.mem_singleton.mp hnew]
        exact hd
  ready s hs := by
    obtain ⟨hlook, hcases⟩ := lookForPacket_cases h hs
    have hready : (arduinoUdp wifi maxLen).ready s
        = (decide (0 < (s.lookForPacket wifi).packetSize), s.lookForPacket wifi) := by
      simp [arduinoUdp, ArduinoWiFiUdpDatagramStream.readable, hs.bound]
    rw [hready]
    refine ⟨hlook, ?_⟩
    rcases hcases with ⟨d, hfound, hsame⟩ | ⟨hnone, ⟨hempty, hstill⟩ | ⟨d, hd, hdropped⟩⟩
    · refine .inl ⟨fun hfalse => ?_, hsame⟩
      have hsize := hlook.size
      rw [hfound] at hsize
      have hlength := List.length_pos_iff.mpr hsize.2
      have hpositive : 0 < (s.lookForPacket wifi).packetSize := by
        rw [hsize.1]
        omega
      exact absurd hpositive (of_decide_eq_false hfalse)
    · exact .inl ⟨fun _ => hempty, hstill.trans hempty.symm⟩
    · refine .inr ⟨decide_eq_false (by omega), d, ?_, hdropped⟩
      exact if_pos hd
  take s hs := by
    obtain ⟨hlook, hcases⟩ := lookForPacket_cases h hs
    rcases hcases with ⟨d, hfound, hsame⟩ | ⟨hnone, hrest⟩
    · obtain ⟨htold, hawaits, hpending⟩ := recvFrom_found h hmax hs.bound hlook hfound
      exact ⟨hawaits, .inr ⟨d, hsame.symm.trans hpending, htold⟩⟩
    · have hreceived : (arduinoUdp wifi maxLen).take s = (none, s.lookForPacket wifi) := by
        simp [arduinoUdp, ArduinoWiFiUdpDatagramStream.recvFrom, hs.bound, hmax.ne', hnone,
          Received.heard]
      rw [hreceived]
      refine ⟨hlook, ?_⟩
      rcases hrest with ⟨hempty, hstill⟩ | ⟨d, hd, hdropped⟩
      · exact .inl ⟨hempty, rfl, hstill⟩
      · exact .inr ⟨d, hdropped, (if_pos hd).symm⟩

end Arduino

/-! ## Both platforms -/

/-- **Every datagram is heard once, in order and from its sender, on both platforms**: in any
interleaving of arrivals with the turns of the callback's loop, which may be entered at any
time. What has been heard is always the first of what has arrived, cut to the buffer; once
nothing arrives any more all of it is heard, after finitely many turns; and so both platforms
hear the same of the same arrivals. On Arduino each datagram must fit the buffer. -/
theorem datagrams_delivered {view : υ → Option Datagram × List Datagram}
    (h : wifi.Documented view) {maxLen : Nat} (hmax : 0 < maxLen)
    {linux : LinuxUdpDatagramStream} (hlinux : linux.fd.isSome)
    {arduino : ArduinoWiFiUdpDatagramStream υ} (hbound : arduino.bound = true)
    (hsize : arduino.packetSize ≤ 0) (hview : view arduino.udp = (none, []))
    {es fs : List (Event Datagram)} {r : Reader LinuxUdpSocket Datagram Heard}
    {q : Reader (ArduinoWiFiUdpDatagramStream υ) Datagram Heard}
    (hr : run (restrict (Reader.accepted fun _ => True) (Reader.step (linuxUdp maxLen)))
      { box := { stream := linux } } es = some r)
    (hq : run (restrict (Reader.accepted fun d => d.payload.length ≤ maxLen)
      (Reader.step (arduinoUdp wifi maxLen))) { box := arduino } fs = some q) :
    r.got <+: r.arrived.filterMap (Datagram.told maxLen)
      ∧ q.got <+: q.arrived.filterMap (Datagram.told maxLen)
      ∧ ∃ turns, ∀ n ≥ turns,
        ((Reader.next (linuxUdp maxLen))^[n] r).got = r.arrived.filterMap (Datagram.told maxLen)
          ∧ ((Reader.next (arduinoUdp wifi maxLen))^[n] q).got
            = q.arrived.filterMap (Datagram.told maxLen)
          ∧ (r.arrived = q.arrived → ((Reader.next (linuxUdp maxLen))^[n] r).got
            = ((Reader.next (arduinoUdp wifi maxLen))^[n] q).got) := by
  have hlawful := linuxUdp_lawful hmax
  have hlawful' := arduinoUdp_lawful h hmax
  have hempty : arduinoPending view arduino = [] := by
    rw [arduinoPending, hview]
    rfl
  have hawaits : Awaits view maxLen arduino := by
    refine ⟨hbound, by rw [hview]; exact hsize, ?_⟩
    rw [hempty]
    exact List.forall_mem_nil _
  have hlinux' := Reader.run_accounts hlawful (s := { stream := linux }) hlinux rfl hr
  have harduino := Reader.run_accounts hlawful' hawaits hempty hq
  refine ⟨⟨_, hlinux'.arrived⟩, ⟨_, harduino.arrived⟩,
    max (2 * r.box.queue.length + 1) (2 * (arduinoPending view q.box).length + 1),
    fun n hn => ?_⟩
  have hr' := Reader.settles hlawful hlinux' (n := n) (by omega)
  have hq' := Reader.settles hlawful' harduino (n := n) (by omega)
  exact ⟨hr', hq', fun hsame => by rw [hr', hq', hsame]⟩

/-- A `WiFiUDP` that keeps its packets in a list. -/
structure PacketList where
  current : Option Datagram := none
  queue : List Datagram := []
  sender : SockAddr := {}

def packetList : WiFiUdp PacketList where
  start u _ := (true, { u with current := none, queue := [] })
  stop u := { u with current := none, queue := [] }
  parsePacket u :=
    match u.queue with
    | [] => (0, { u with current := none })
    | d :: rest =>
        (d.payload.length,
          { current := if d.payload = [] then none else some d, queue := rest, sender := d.source })
  read u n :=
    match u.current with
    | none => ((0, []), u)
    | some d =>
        (((d.payload.take n).length, d.payload.take n),
          { u with
            current := if d.payload.length ≤ n then none
              else some { d with
                payload := d.payload.drop n
                sound := by rw [List.length_drop]; have := d.sound; omega }
            sender := d.source })
  remote u := u.sender
  beginPacket u _ := (true, u)
  write u bytes := (bytes.length, u)
  endPacket u := (true, u)
  fromString := inetPton
  receive u d := { u with queue := u.queue ++ [d] }

theorem packetList_documented :
    packetList.Documented fun u => (u.current, u.queue) where
  receive u d := rfl
  parse_none u hu := by
    obtain ⟨-, hqueue⟩ := Prod.mk.inj hu
    simp [packetList, hqueue]
  parse_next u d rest hu := by
    obtain ⟨-, hqueue⟩ := Prod.mk.inj hu
    simp [packetList, hqueue]
  read_whole u d rest n hu hn := by
    obtain ⟨hcurrent, hqueue⟩ := Prod.mk.inj hu
    simp [packetList, hcurrent, hqueue, hn]

/-- An empty datagram between two others, the last one while the loop runs. -/
def threeDatagrams : List (Event Datagram) :=
  [.arrives ⟨[1, 2], ⟨⟨192, 168, 1, 7⟩, 20225⟩, by decide⟩,
    .arrives ⟨[], ⟨⟨192, 168, 1, 7⟩, 20225⟩, by decide⟩, .next, .next,
    .arrives ⟨[3], ⟨⟨192, 168, 1, 8⟩, 20226⟩, by decide⟩, .next]

theorem datagrams_delivered_run :
    ∃ r q,
      run (restrict (Reader.accepted fun _ => True) (Reader.step (linuxUdp 8)))
          { box := { stream := { fd := some 3 } } } threeDatagrams = some r
        ∧ run (restrict (Reader.accepted fun d => d.payload.length ≤ 8)
          (Reader.step (arduinoUdp packetList 8))) { box := { udp := {}, bound := true } }
          threeDatagrams = some q
        ∧ ∃ turns, ∀ n ≥ turns, ((Reader.next (linuxUdp 8))^[n] r).got
          = ((Reader.next (arduinoUdp packetList 8))^[n] q).got := by
  obtain ⟨r, hr⟩ : ∃ r, run (restrict (Reader.accepted fun _ => True) (Reader.step (linuxUdp 8)))
      { box := { stream := { fd := some 3 } } } threeDatagrams = some r := ⟨_, rfl⟩
  obtain ⟨q, hq⟩ : ∃ q, run (restrict (Reader.accepted fun d => d.payload.length ≤ 8)
      (Reader.step (arduinoUdp packetList 8))) { box := { udp := {}, bound := true } }
      threeDatagrams = some q := ⟨_, rfl⟩
  obtain ⟨-, -, turns, hturns⟩ := datagrams_delivered packetList_documented (by decide) rfl rfl
    (by decide) rfl hr hq
  have harrived : r.arrived = q.arrived := by
    rw [← Option.some.inj hr, ← Option.some.inj hq]
    rfl
  exact ⟨r, q, hr, hq, turns, fun n hn => (hturns n hn).2.2 harrived⟩

/-! ## Replies -/

/-- **A reply to the endpoint of a datagram goes to its sender.** -/
theorem linux_reply {s : LinuxUdpDatagramStream} (hs : s.fd.isSome) {t : Transfer}
    (hbuffer : t.buffer = true) (hlen : t.len ≠ 0) (sender : SockAddr) :
    (s.sendTo t sender.endpoint).answer.dest = some sender := by
  obtain ⟨fd, hfd⟩ := Option.isSome_iff_exists.mp hs
  simp [LinuxUdpDatagramStream.sendTo, LinuxUdpDatagramStream.sendToSockaddr,
    Transfer.apply, hfd, hbuffer, hlen]

/-- `remote` has the endpoint too once `set_remote` has taken it. -/
theorem linux_reply_remote {s : LinuxUdpDatagramStream} (hs : s.fd.isSome) {t : Transfer}
    (hbuffer : t.buffer = true) (hlen : t.len ≠ 0) {sender : SockAddr} (hport : sender.port ≠ 0) :
    let set := (s.setRemote (some sender.endpoint.host) sender.endpoint.port).self
    (set.write t).answer.dest = some sender := by
  obtain ⟨fd, hfd⟩ := Option.isSome_iff_exists.mp hs
  simp [LinuxUdpDatagramStream.setRemote, hport, LinuxUdpDatagramStream.write,
    LinuxUdpDatagramStream.sendToSockaddr, Outcome.quiet, Transfer.apply, hfd, hbuffer, hlen]

theorem text_broadcast :
    text ⟨255, 255, 255, 255⟩ = "255.255.255.255".toList.map Char.toUInt8 := by
  decide

theorem address_text (hfromString : ∀ ip, wifi.fromString (text ip) = some ip) (ip : Address) :
    ArduinoWiFiUdpDatagramStream.address wifi (text ip) = some ip := by
  unfold ArduinoWiFiUdpDatagramStream.address
  split
  · rename_i hbroadcast
    rw [text_inj.mp (hbroadcast.trans text_broadcast.symm)]
  · exact hfromString ip

theorem arduino_reply {s : ArduinoWiFiUdpDatagramStream υ} (hs : s.bound = true)
    (hfromString : ∀ ip, wifi.fromString (text ip) = some ip) {b : UInt8} {bytes : List UInt8}
    {sender : SockAddr} (hport : sender.port ≠ 0) :
    (s.sendTo wifi (some (b :: bytes)) sender.endpoint).1.dest = some sender := by
  simp only [ArduinoWiFiUdpDatagramStream.sendTo, SockAddr.endpoint_host,
    SockAddr.endpoint_port, address_text hfromString, ArduinoWiFiUdpDatagramStream.sendToIp, hs,
    hport, Bool.not_true, decide_false, Bool.or_self, Bool.false_eq_true, if_false]
  split <;> rfl

end AsyncEventLoop
