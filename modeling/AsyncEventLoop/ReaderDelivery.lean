import AsyncEventLoop.FixedFrameReader
import AsyncEventLoop.HeaderReader
import AsyncEventLoop.JsonFraming
import AsyncEventLoop.MemoryByteStream

/-!
# Messages through a byte stream

One side writes messages into a `MemoryByteStream`, in pieces, as far as
there is room; a protocol reader on the other side reads it a byte at a time.
The loop in a reader's `poll` asks the stream before every byte, so that a write
may come between any two of its turns, also from the callback of a message.

`Delivery.Conserved` is the invariant: the reader is behind exactly the bytes
that were accepted and are not stored any more. What arrives of the messages
follows from the readers' own laws, each of them put as a `Codec`.
-/

namespace AsyncEventLoop

open FixedArray StreamReader MemoryByteStream

/-- A stream, the reader that is polled on it, what the stream has accepted and
what the reader has emitted. -/
structure Delivery (Capacity : Nat) (σ ω : Type) where
  stream : MemoryByteStream Capacity := {}
  reader : σ
  accepted : List UInt8 := []
  emitted : List ω := []

inductive DeliveryEvent where
  | write (src : Option (List UInt8))
  /-- One turn of the loop in `poll`. -/
  | turn

namespace Delivery

variable {C : Nat} {σ ω μ : Type} {next : σ → UInt8 → σ × List ω}

/-- `while (stream_.readable())` around `stream_.read(&byte, 1)`, once. -/
def turn (next : σ → UInt8 → σ × List ω) (d : Delivery C σ ω) : Delivery C σ ω :=
  if d.stream.readable then
    let r := d.stream.read true 1
    if r.1 ≤ 0 then { d with stream := r.2.2 }
    else
      let s := next d.reader (r.2.1.headD 0)
      { d with stream := r.2.2, reader := s.1, emitted := d.emitted ++ s.2 }
  else d

/-- The whole loop, when nobody writes: it ends after as many turns as there are
bytes (`Conserved.poll`). -/
def poll (next : σ → UInt8 → σ × List ω) (d : Delivery C σ ω) : Delivery C σ ω :=
  (turn next)^[d.stream.size] d

def step (next : σ → UInt8 → σ × List ω) (d : Delivery C σ ω) : DeliveryEvent → Delivery C σ ω
  | .write src =>
      { d with
        stream := (d.stream.write src).2
        accepted := d.accepted ++ d.stream.accepts src }
  | .turn => turn next d

def run (next : σ → UInt8 → σ × List ω) (s : σ) (events : List DeliveryEvent) : Delivery C σ ω :=
  events.foldl (step next) { reader := s }

/-! ## What is on the way -/

structure Conserved (next : σ → UInt8 → σ × List ω) (s : σ) (d : Delivery C σ ω)
    (taken : List UInt8) : Prop where
  ring : Ring d.stream
  order : taken ++ d.stream.stored = d.accepted
  reader : d.reader = (feed next s taken).1
  emitted : d.emitted = (feed next s taken).2

variable {s : σ} {d : Delivery C σ ω} {taken : List UInt8}

/-- A stream that is readable gives up its oldest byte. -/
theorem read_one {stream : MemoryByteStream C} (h : Ring stream) (hreadable : stream.readable) :
    ∃ byte, stream.read true 1 = (1, [byte], (stream.read true 1).2.2)
      ∧ Ring (stream.read true 1).2.2
      ∧ byte :: (stream.read true 1).2.2.stored = stream.stored := by
  have hpos : 0 < stream.count := of_decide_eq_true hreadable
  obtain ⟨hring, hbytes, hlength⟩ := h.readLoop_spec 1
  rw [Nat.min_eq_left hpos] at hlength
  obtain ⟨byte, hbyte⟩ := List.length_eq_one_iff.mp hlength
  have hread : stream.read true 1 = (1, readLoop 1 stream) := by
    show (Int32.ofNat (readLoop 1 stream).1.length, readLoop 1 stream) = _
    rw [hlength]
    rfl
  rw [hbyte] at hbytes
  rw [hread]
  exact ⟨byte, by rw [← hbyte], hring, hbytes⟩

theorem Conserved.turn (h : Conserved next s d taken) (hreadable : d.stream.readable) :
    ∃ byte, Conserved next s (d.turn next) (taken ++ [byte])
      ∧ (d.turn next).stream.stored = d.stream.stored.tail
      ∧ (d.turn next).accepted = d.accepted := by
  obtain ⟨byte, hread, hring, hstored⟩ := read_one h.ring hreadable
  have hturn : d.turn next
      = { d with
          stream := (d.stream.read true 1).2.2
          reader := (next d.reader byte).1
          emitted := d.emitted ++ (next d.reader byte).2 } := by
    rw [Delivery.turn, if_pos hreadable, hread]
    rfl
  rw [hturn]
  refine ⟨byte, ⟨hring, ?_, ?_, ?_⟩, by rw [← hstored, List.tail_cons], rfl⟩
  · rw [← h.order, ← hstored, List.append_assoc, List.singleton_append]
  · rw [feed_snoc, h.reader]
  · rw [feed_snoc, h.reader, h.emitted]

/-- **The step.** -/
theorem Conserved.step (h : Conserved next s d taken) (event : DeliveryEvent) :
    ∃ taken', Conserved next s (d.step next event) taken' := by
  cases event with
  | write src =>
      obtain ⟨hring, horder⟩ := StreamTraffic.order_write
        (t := { stream := d.stream, accepted := d.accepted, delivered := taken }) h.ring h.order src
      exact ⟨taken, hring, horder, h.reader, h.emitted⟩
  | turn =>
      by_cases hreadable : d.stream.readable
      · obtain ⟨byte, hkept, -, -⟩ := h.turn hreadable
        exact ⟨_, hkept⟩
      · have hturn : d.step next .turn = d := if_neg hreadable
        exact ⟨taken, by rwa [hturn]⟩

/-- **The run.** -/
theorem run_conserved (hC : 0 < C) (next : σ → UInt8 → σ × List ω) (s : σ)
    (events : List DeliveryEvent) :
    ∃ taken, Conserved next s (run next s events : Delivery C σ ω) taken := by
  induction events using List.reverseRecOn with
  | nil =>
      exact ⟨[], ⟨hC, Nat.zero_le C, (Nat.zero_mod C).symm⟩,
        stored_clear ({} : MemoryByteStream C), rfl, rfl⟩
  | append_singleton events event ih =>
      obtain ⟨taken, h⟩ := ih
      rw [run, List.foldl_append]
      exact h.step event

/-- A `poll` that nobody writes into leaves nothing in the stream. -/
theorem Conserved.poll (h : Conserved next s d taken) :
    (d.poll next).stream.readable = false
      ∧ Conserved next s (d.poll next) (taken ++ d.stream.stored)
      ∧ (d.poll next).accepted = d.accepted := by
  unfold Delivery.poll
  induction hsize : d.stream.size generalizing d taken with
  | zero =>
      have hnil : d.stream.stored = [] := by
        refine List.length_eq_zero_iff.mp ?_
        rw [h.ring.length_stored]
        exact hsize
      refine ⟨by simp [readable, show d.stream.count = 0 from hsize], ?_, rfl⟩
      rwa [hnil, List.append_nil]
  | succ n ih =>
      have hcount : d.stream.count = n + 1 := hsize
      have hreadable : d.stream.readable := by
        rw [readable, hcount]
        exact decide_eq_true (Nat.succ_pos n)
      obtain ⟨byte, hkept, htail, haccepted⟩ := h.turn hreadable
      have hbytes : taken ++ d.stream.stored
          = taken ++ [byte] ++ (d.turn next).stream.stored := by
        rw [h.order, ← haccepted, hkept.order]
      have hless : (d.turn next).stream.size = n := by
        show (d.turn next).stream.count = n
        rw [← hkept.ring.length_stored, htail, List.length_tail, h.ring.length_stored, hcount]
        rfl
      obtain ⟨hdone, hall, hsame⟩ := ih hkept hless
      rw [hbytes, Function.iterate_succ_apply]
      exact ⟨hdone, hall, hsame.trans haccepted⟩

/-- What has arrived of messages that were written. -/
structure Arrives (next : σ → UInt8 → σ × List ω) (d : Delivery C σ ω) (written : List UInt8)
    (emitted : List ω) : Prop where
  /-- Never anything else, and nothing out of order. -/
  sofar : d.emitted <+: emitted
  /-- Everything, once all is accepted and read. -/
  all : d.accepted = written → d.stream.readable = false → d.emitted = emitted
  /-- And one `poll` reads what is there. -/
  poll : d.accepted = written → (d.poll next).emitted = emitted

/-- **Any reader.** -/
theorem codec_arrives {Boundary : σ → Prop} {Valid : μ → Prop} {encode : μ → List UInt8}
    {emitted : μ → List ω} (hcodec : Codec next Boundary Valid encode emitted)
    (hs : Boundary s) {ms : List μ} (hms : ∀ m ∈ ms, Valid m) (hC : 0 < C)
    (events : List DeliveryEvent)
    (haccepted : (run next s events : Delivery C σ ω).accepted <+: ms.flatMap encode) :
    Arrives next (run next s events : Delivery C σ ω) (ms.flatMap encode)
      (ms.flatMap emitted) := by
  obtain ⟨taken, h⟩ := run_conserved hC next s events
  obtain ⟨-, hpolled, hsame⟩ := h.poll
  refine ⟨?_, fun hall hdone => ?_, fun hall => ?_⟩
  · rw [h.emitted]
    refine hcodec.arrived hs hms (List.IsPrefix.trans ?_ haccepted)
    rw [← h.order]
    exact List.prefix_append _ _
  · have hnil : (run next s events : Delivery C σ ω).stream.stored = [] := by
      refine List.length_eq_zero_iff.mp ?_
      rw [h.ring.length_stored]
      exact Nat.eq_zero_of_not_pos (of_decide_eq_false hdone)
    have htaken : taken = ms.flatMap encode := by
      rw [← hall, ← h.order, hnil, List.append_nil]
    rw [h.emitted, htaken, (hcodec.messages hs hms).2]
  · rw [hpolled.emitted, h.order, hall, (hcodec.messages hs hms).2]

end Delivery

/-! ## Lines -/

namespace LineProtocolReader

variable {N : Nat} {options : LineProtocolOptions}

def readLines (r : LineProtocolReader N) (byte : UInt8) :
    LineProtocolReader N × List (List UInt8) :=
  ((readByte r byte).1, (readByte r byte).2.toList)

theorem poll_eq_feed (r : LineProtocolReader N) (bytes : List UInt8) :
    poll r bytes = feed readLines r bytes := by
  induction bytes generalizing r with
  | nil => rfl
  | cons byte bytes ih => simp only [poll, feed, ih, readLines]

/-- A text and its delimiter are one segment and an empty one. -/
theorem segments_text {text : List UInt8} (h : options.delimiter ∉ text) :
    (text ++ [options.delimiter]).splitOn options.delimiter = [text, []] := by
  rw [List.splitOn_append_cons_self, List.splitOn_eq_singleton h]
  rfl

theorem lines_codec (N : Nat) (options : LineProtocolOptions) :
    Codec readLines (fun r : LineProtocolReader N => r.options = options ∧ Pending r [])
      (fun text => options.delimiter ∉ text) (fun text => text ++ [options.delimiter])
      fun text => [lineText options N text] where
  boundary r text h htext := by
    obtain ⟨rfl, hpending⟩ := h
    have hreads := poll_pending (text ++ [r.options.delimiter]) r [] hpending
    have hafter := hreads.pending
    rw [segmentsFrom_nil_left, segments_text htext] at hafter
    rw [← poll_eq_feed]
    exact ⟨hreads.options, hafter⟩
  message r text h htext := by
    obtain ⟨rfl, hpending⟩ := h
    have hlines := (poll_pending (text ++ [r.options.delimiter]) r [] hpending).lines
    rw [segmentsFrom_nil_left, segments_text htext] at hlines
    rw [← poll_eq_feed, hlines]
    rfl

theorem length_kept_le (options : LineProtocolOptions) (N : Nat) (text : List UInt8) :
    (kept options N text).length ≤ N := by
  have hmod : text.length % (N + 1) < N + 1 := Nat.mod_lt _ (Nat.succ_pos N)
  unfold kept
  split
  · rw [List.length_drop]
    omega
  · rw [List.length_take]
    omega

theorem kept_fits (options : LineProtocolOptions) {text : List UInt8} (h : text.length ≤ N) :
    kept options N text = text := by
  unfold kept
  rw [Nat.mod_eq_of_lt (Nat.lt_succ_of_le h), Nat.sub_self, List.drop_zero, Nat.min_eq_left h,
    List.take_length, ite_self]

theorem length_stripped_le (options : LineProtocolOptions) (text : List UInt8) :
    (stripped options text).length ≤ text.length := by
  unfold stripped
  split
  · rw [List.length_dropLast]
    exact Nat.sub_le _ _
  · exact Nat.le_refl _

/-- The texts that a reader hands on as they are. -/
def Intact (options : LineProtocolOptions) (N : Nat) (text : List UInt8) : Prop :=
  text.length ≤ N ∧ ¬ (options.stripCr = true ∧ text.getLast? = some 13)

theorem lineText_eq_iff (options : LineProtocolOptions) (N : Nat) (text : List UInt8) :
    lineText options N text = text ↔ Intact options N text := by
  rw [lineText, Intact]
  constructor
  · intro h
    have hshort := length_stripped_le options (kept options N text)
    rw [h] at hshort
    have hfits := Nat.le_trans hshort (length_kept_le options N text)
    rw [kept_fits options hfits, stripped] at h
    refine ⟨hfits, fun hcr => ?_⟩
    rw [if_pos hcr] at h
    have hnil : text = [] := by
      have hlen := congrArg List.length h
      rw [List.length_dropLast] at hlen
      exact List.length_eq_zero_iff.mp (by omega)
    rw [hnil] at hcr
    exact nomatch hcr.2
  · rintro ⟨hfits, hcr⟩
    rw [kept_fits options hfits, stripped, if_neg hcr]

theorem map_lineText_eq_iff (options : LineProtocolOptions) (N : Nat) (texts : List (List UInt8)) :
    texts.map (lineText options N) = texts ↔ ∀ text ∈ texts, Intact options N text := by
  induction texts with
  | nil => simp
  | cons text texts ih =>
      rw [List.map_cons, List.cons.injEq, ih, lineText_eq_iff, List.forall_mem_cons]

/-- Texts are written to a stream of any capacity, each with its delimiter, and a
line reader is polled on it; writes and turns of its loop come in any order. At
every moment the lines emitted are the first of those written, in order, and
once everything is accepted one `poll` emits the rest. The lines are the texts
themselves just where each of them fits the buffer, and none ends in a carriage
return that is stripped. -/
theorem lines_delivered {C : Nat} (hC : 0 < C) (N : Nat) (options : LineProtocolOptions)
    (texts : List (List UInt8)) (htexts : ∀ text ∈ texts, options.delimiter ∉ text)
    (events : List DeliveryEvent) :
    let d : Delivery C _ _ := Delivery.run readLines (fresh N options) events
    let written := texts.flatMap (· ++ [options.delimiter])
    d.accepted <+: written →
      Delivery.Arrives readLines d written (texts.map (lineText options N))
        ∧ (texts.map (lineText options N) = texts ↔ ∀ text ∈ texts, Intact options N text) := by
  intro d written haccepted
  have harrives := Delivery.codec_arrives (lines_codec N options)
    (s := fresh N options) ⟨rfl, fresh_pending N options⟩ htexts hC events haccepted
  rw [← List.map_eq_flatMap] at harrives
  exact ⟨harrives, map_lineText_eq_iff options N texts⟩

/-- Two lines through a stream of three bytes, the second not all written yet. -/
theorem lines_delivered_run :
    Delivery.Arrives readLines (Delivery.run readLines (fresh 4 {})
        [.write (some [104, 105, 10, 111]), .turn, .turn, .turn, .write (some [111])] :
          Delivery 3 _ _)
        [104, 105, 10, 111, 107, 10] ([[104, 105], [111, 107]].map (lineText {} 4))
      ∧ ([[104, 105], [111, 107]].map (lineText {} 4) = [[104, 105], [111, 107]]
        ↔ ∀ text ∈ [[104, 105], [111, 107]], Intact {} 4 text) :=
  lines_delivered (C := 3) (by decide) 4 {} [[104, 105], [111, 107]] (by decide)
    [.write (some [104, 105, 10, 111]), .turn, .turn, .turn, .write (some [111])]
    (by decide +kernel)

end LineProtocolReader

/-! ## Frames -/

namespace FixedFrameProtocolReader

variable {N F : Nat}

theorem fixed_frames_delivered {C : Nat} (hC : 0 < C) (hpos : 0 < F) (hfits : F ≤ N)
    (frames : List (List UInt8)) (hframes : ∀ frame ∈ frames, frame.length = F)
    (events : List DeliveryEvent) :
    let d : Delivery C _ _ := Delivery.run readByte (fresh N F) events
    d.accepted <+: frames.flatten → Delivery.Arrives readByte d frames.flatten frames := by
  intro d haccepted
  rw [← List.flatMap_id] at haccepted ⊢
  have harrives := Delivery.codec_arrives frames_codec (s := fresh N F)
    (fresh_filling hpos hfits) hframes hC events haccepted
  rwa [List.flatMap_singleton'] at harrives

end FixedFrameProtocolReader

namespace HeaderPayloadProtocolReader

variable {N : Nat} {options : HeaderPayloadProtocolOptions} {f : List UInt8 → UInt64}

theorem readBytes_eq_feed (r : HeaderPayloadProtocolReader N) (bytes : List UInt8) :
    readBytes r bytes = feed readByte r bytes := by
  induction bytes generalizing r with
  | nil => rfl
  | cons byte bytes ih => simp only [readBytes, feed, ih]

/-- A header and the payload it announces. -/
structure Message (options : HeaderPayloadProtocolOptions) (f : List UInt8 → UInt64)
    (m : List UInt8 × List UInt8) : Prop where
  header : m.1.length = options.headerSize
  payload : m.2.length = (f m.1).toNat
  size : (f m.1).toNat ≤ options.maxPayloadSize

/-- The reader has read `whole`, and what follows is parsed on its own. -/
def AtBoundary (options : HeaderPayloadProtocolOptions) (f : List UInt8 → UInt64)
    (r : HeaderPayloadProtocolReader N) : Prop :=
  ∃ whole, r = (readBytes (fresh N options) whole).1
    ∧ ∀ rest, parse options.headerSize options.maxPayloadSize f (whole ++ rest)
      = parse options.headerSize options.maxPayloadSize f whole
        ++ parse options.headerSize options.maxPayloadSize f rest

theorem parse_message (hpos : 0 < options.headerSize) {m : List UInt8 × List UInt8}
    (hm : Message options f m) (rest : List UInt8) :
    parse options.headerSize options.maxPayloadSize f (m.1 ++ m.2 ++ rest)
      = .asked m.1 :: .frame (m.1 ++ m.2)
        :: parse options.headerSize options.maxPayloadSize f rest := by
  have htake : (m.1 ++ m.2).take options.headerSize = m.1 := List.take_left' hm.header
  have hlen : (m.1 ++ m.2).length = options.headerSize + (f m.1).toNat := by
    rw [List.length_append, hm.header, hm.payload]
  rw [parse_frame hpos (by omega) (by rw [htake]; exact hm.size) (by rw [htake]; exact hlen),
    htake]

theorem parse_whole_message (hpos : 0 < options.headerSize) {m : List UInt8 × List UInt8}
    (hm : Message options f m) :
    parse options.headerSize options.maxPayloadSize f (m.1 ++ m.2)
      = [.asked m.1, .frame (m.1 ++ m.2)] := by
  have hmessage := parse_message hpos hm []
  rwa [List.append_nil, parse_short (q := []) hpos] at hmessage

theorem readBytes_parse (hu : Usable N options f) (bytes : List UInt8) :
    (readBytes (fresh N options) bytes).2
      = parse options.headerSize options.maxPayloadSize f bytes := by
  obtain ⟨-, hparse, -⟩ := readBytes_open hu bytes (fresh_open hu)
  rwa [parse_short hu.header_pos, List.nil_append, List.nil_append] at hparse

theorem messages_codec (hu : Usable N options f) :
    Codec readByte (fun r : HeaderPayloadProtocolReader N => AtBoundary options f r)
      (Message options f) (fun m => m.1 ++ m.2) fun m => [.asked m.1, .frame (m.1 ++ m.2)] where
  boundary r m h hm := by
    obtain ⟨whole, rfl, hwhole⟩ := h
    refine ⟨whole ++ (m.1 ++ m.2), ?_, fun rest => ?_⟩
    · rw [← readBytes_eq_feed, readBytes_append (fresh N options) whole]
    · rw [List.append_assoc, hwhole, hwhole, parse_message hu.header_pos hm,
        parse_whole_message hu.header_pos hm, List.append_assoc]
      rfl
  message r m h hm := by
    obtain ⟨whole, rfl, hwhole⟩ := h
    have hboth := readBytes_parse hu (whole ++ (m.1 ++ m.2))
    rw [readBytes_append, readBytes_parse hu, hwhole, List.append_right_inj,
      parse_whole_message hu.header_pos hm] at hboth
    rw [← readBytes_eq_feed, hboth]

/-- Headers, each with the payload it announces, through a stream of any
capacity: however the writes and the turns of the reader's loop are ordered, the
size function is asked for each header once, and the frames arrive as they were
written. -/
theorem header_frames_delivered {C : Nat} (hC : 0 < C) (hu : Usable N options f)
    (messages : List (List UInt8 × List UInt8)) (hmessages : ∀ m ∈ messages, Message options f m)
    (events : List DeliveryEvent) :
    let d : Delivery C _ _ := Delivery.run readByte (fresh N options) events
    let written := messages.flatMap fun m => m.1 ++ m.2
    d.accepted <+: written →
      Delivery.Arrives readByte d written
        (messages.flatMap fun m => [.asked m.1, .frame (m.1 ++ m.2)]) := by
  intro d written haccepted
  have hfresh : AtBoundary options f (fresh N options) :=
    ⟨[], rfl, fun rest => by
      rw [parse_short (q := []) hu.header_pos, List.nil_append, List.nil_append]⟩
  exact Delivery.codec_arrives (messages_codec hu) hfresh hmessages hC events haccepted

/-- A one-byte header that holds the payload size. -/
theorem header_frames_delivered_run :
    Delivery.Arrives readByte (Delivery.run readByte
        (fresh 16 ⟨1, 8, some fun header => (header.headD 0).toUInt64⟩)
        [.write (some [2, 111]), .turn, .write (some [107, 0]), .turn, .turn] : Delivery 3 _ _)
      [2, 111, 107, 0]
      [.asked [2], .frame [2, 111, 107], .asked [0], .frame [0]] :=
  header_frames_delivered (C := 3) (f := fun header => (header.headD 0).toUInt64) (by decide)
    ⟨by decide, by decide, rfl, by decide⟩ [([2], [111, 107]), ([0], [])]
    (List.forall_mem_cons.mpr ⟨⟨rfl, rfl, by decide⟩,
      List.forall_mem_cons.mpr ⟨⟨rfl, rfl, by decide⟩, List.forall_mem_nil _⟩⟩)
    [.write (some [2, 111]), .turn, .write (some [107, 0]), .turn, .turn] (by decide +kernel)

end HeaderPayloadProtocolReader

/-! ## JSON values -/

namespace JsonProtocolReader

open JsonGrammar

variable {N : Nat}

theorem poll_eq_feed (r : JsonProtocolReader N) (bytes : List UInt8) :
    poll r bytes = feed readByte r bytes := by
  induction bytes generalizing r with
  | nil => rfl
  | cons byte bytes ih => simp only [poll, feed, ih]

/-- A value that the buffer can hold, and white space behind it. -/
structure Message (N : Nat) (m : List UInt8 × List UInt8) : Prop where
  value : Value m.1
  fits : m.1.length ≤ N
  space : Ws m.2
  ends : m.2 ≠ []

theorem Message.stream {m : List UInt8 × List UInt8} (hm : Message N m) :
    Stream [m.1] (m.1 ++ m.2) := by
  obtain ⟨c, rest, hspace⟩ := List.exists_cons_of_ne_nil hm.ends
  have hc : isWs c = true := hm.space c (by rw [hspace]; exact List.mem_cons_self)
  have hnone : Ws [] := List.forall_mem_nil _
  exact .next hnone hm.value (.done hm.space) fun _ => ⟨c, rest, hspace, isNumberByte_of_isWs hc⟩

theorem message_reads {m : List UInt8 × List UInt8} (hm : Message N m)
    {r : JsonProtocolReader N} (hidle : Idle r) :
    ∃ r', feed readByte r (m.1 ++ m.2) = (r', [m.1]) ∧ Idle r' := by
  have hlength : ∀ v ∈ [m.1], v.length ≤ N + 1 := by
    intro v hv
    rw [List.mem_singleton.mp hv]
    exact Nat.le_succ_of_le hm.fits
  obtain ⟨r', hreads, hidle'⟩ := reads_stream hm.stream hlength hidle
  have hfilter : [m.1].filter (·.length ≤ N) = [m.1] :=
    List.filter_cons_of_pos (by simpa using hm.fits)
  refine ⟨r', ?_, hidle'⟩
  rw [← poll_eq_feed, hreads.poll, hfilter]

theorem values_codec (N : Nat) :
    Codec readByte (fun r : JsonProtocolReader N => Idle r) (Message N) (fun m => m.1 ++ m.2)
      fun m => [m.1] where
  boundary r m hidle hm := by
    obtain ⟨r', hfeed, hidle'⟩ := message_reads hm hidle
    rw [hfeed]
    exact hidle'
  message r m hidle hm := by
    obtain ⟨r', hfeed, -⟩ := message_reads hm hidle
    rw [hfeed]

/-- JSON values of any kind and nesting that fit the buffer, each with white space behind
it, through a stream of any capacity: however the writes and the turns of the reader's loop
are ordered, the values emitted are at every moment the first of those written, byte for
byte, and one `poll` emits all that is accepted. -/
theorem values_delivered {C : Nat} (hC : 0 < C) (options : JsonProtocolOptions)
    (messages : List (List UInt8 × List UInt8)) (hmessages : ∀ m ∈ messages, Message N m)
    (events : List DeliveryEvent) :
    let d : Delivery C _ _ := Delivery.run readByte (fresh N options) events
    let written := messages.flatMap fun m => m.1 ++ m.2
    d.accepted <+: written → Delivery.Arrives readByte d written (messages.map Prod.fst) := by
  intro d written haccepted
  have harrives := Delivery.codec_arrives (values_codec N) (s := fresh N options)
    (idle_fresh options) hmessages hC events haccepted
  rwa [← List.map_eq_flatMap] at harrives

/-- `[1]` and `1` through a stream of two bytes. -/
theorem values_delivered_run :
    Delivery.Arrives readByte (Delivery.run readByte (fresh 3 {})
        [.write (some [91, 49]), .turn, .turn, .write (some [93, 10]), .turn, .write (some [49])] :
          Delivery 2 _ _)
      [91, 49, 93, 10, 49, 32] [[91, 49, 93], [49]] := by
  have hone : Value [49] := value_one
  have hnone : Ws [] := List.forall_mem_nil _
  have harray : Value [91, 49, 93] := .array (@Text.element [] [49] [] hnone hone hnone)
  have hnewline : Ws [10] := by simp [Ws, isWs]
  exact values_delivered (C := 2) (by decide) {} [([91, 49, 93], [10]), ([49], [32])]
    (List.forall_mem_cons.mpr ⟨⟨harray, by decide, hnewline, by decide⟩,
      List.forall_mem_cons.mpr ⟨⟨hone, by decide, ws_space, by decide⟩, List.forall_mem_nil _⟩⟩)
    [.write (some [91, 49]), .turn, .turn, .write (some [93, 10]), .turn, .write (some [49])]
    (by decide +kernel)

end JsonProtocolReader

end AsyncEventLoop
