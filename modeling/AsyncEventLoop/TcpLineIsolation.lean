import AsyncEventLoop.TcpLineServer

/-!
# The lines of a session are its own

A connection is known by its address, and an address may come back: each
`on_accept` begins a session of the connection there. A reader is used for one
session after another, and `release` does not clear it; a slot that was never
released is even found again by the next connection at the same address.

Two readers are `Alike` if they have the same text in hand of an open segment;
from then on they emit the same lines. The invariant is that the reader of a
slot is alike to a fresh one that has read the bytes of the session, and that
the lines of the session so far are those of the fresh one.

It is kept by every event, as long as the reader of the slot that a session
gets has no text in hand (`bindsClean`), and as long as a connection that has
just been read from is valid.
-/

namespace AsyncEventLoop

open Runs

namespace LineProtocolReader

variable {N : Nat}

/-- Two readers with the same options and the same text in hand. -/
def Alike (r r' : LineProtocolReader N) : Prop :=
  r.options = r'.options ∧ ∃ segment, Pending r segment ∧ Pending r' segment

theorem Alike.readByte {r r' : LineProtocolReader N} (h : Alike r r') (byte : UInt8) :
    (r.readByte byte).2 = (r'.readByte byte).2
      ∧ Alike (r.readByte byte).1 (r'.readByte byte).1 := by
  obtain ⟨hoptions, segment, hr, hr'⟩ := h
  have hkept : (r.readByte byte).1.options = r.options := consume_options _ byte
  have hkept' : (r'.readByte byte).1.options = r'.options := consume_options _ byte
  have hopt : (r.readByte byte).1.options = (r'.readByte byte).1.options := by
    rw [hkept, hkept', hoptions]
  have hcounted : Pending { r with stats := { r.stats with bytes := r.stats.bytes + 1 } } segment :=
    ⟨hr.text, hr.size_le⟩
  have hcounted' :
      Pending { r' with stats := { r'.stats with bytes := r'.stats.bytes + 1 } } segment :=
    ⟨hr'.text, hr'.size_le⟩
  by_cases hdelimiter : byte = r.options.delimiter
  · obtain ⟨hline, hpending, -⟩ := consume_delimiter hcounted hdelimiter
    obtain ⟨hline', hpending', -⟩ := consume_delimiter hcounted' (hoptions ▸ hdelimiter)
    refine ⟨hline.trans ?_, hopt, [], hpending, hpending'⟩
    rw [hoptions]
    exact hline'.symm
  · obtain ⟨hline, hpending, -⟩ := consume_pending hcounted hdelimiter
    obtain ⟨hline', hpending', -⟩ := consume_pending hcounted' (hoptions ▸ hdelimiter)
    exact ⟨hline.trans hline'.symm, hopt, segment ++ [byte], hpending, hpending'⟩

/-- Nothing, or whole lines. -/
def endsLine (bytes : List UInt8) : Bool := bytes.getLast?.all (· = 10)

/-- Readers with nothing in hand. -/
theorem alike_empty {r r' : LineProtocolReader N} (hoptions : r.options = r'.options)
    (hsize : r.size = 0) (hsize' : r'.size = 0) : Alike r r' := by
  refine ⟨hoptions, [], ⟨?_, hsize ▸ Nat.zero_le N⟩, ⟨?_, hsize' ▸ Nat.zero_le N⟩⟩
  · rw [hsize, FixedArray.front_zero, kept_nil]
  · rw [hsize', FixedArray.front_zero, kept_nil]

theorem alike_fresh {r : LineProtocolReader N} {options : LineProtocolOptions}
    (hoptions : r.options = options) (hsize : r.size = 0) : Alike r (fresh N options) :=
  alike_empty hoptions hsize rfl

/-- A reader with nothing in hand is as good as one that has read whole lines. -/
theorem alike_endsLine {r : LineProtocolReader N} (hoptions : r.options = {}) (hsize : r.size = 0)
    {bytes : List UInt8} (hbytes : endsLine bytes = true) :
    Alike r (poll (fresh N {}) bytes).1 := by
  rcases List.eq_nil_or_concat bytes with rfl | ⟨lines, byte, rfl⟩
  · exact alike_fresh hoptions hsize
  · rw [List.concat_eq_append] at hbytes ⊢
    obtain rfl : byte = 10 := by simpa [endsLine] using hbytes
    have hread : (poll (fresh N {}) lines).1.options = {} :=
      (poll_pending lines (fresh N {}) [] (fresh_pending N {})).options
    have hkept : ((poll (fresh N {}) lines).1.readByte 10).1.options
        = (poll (fresh N {}) lines).1.options := consume_options _ 10
    rw [poll_snoc]
    refine alike_empty ?_ hsize ?_
    · exact hoptions.trans (hkept.trans hread).symm
    · rw [readByte, consume, if_pos (by rw [hread])]
      rfl

end LineProtocolReader

/-- The bytes that were read of a connection. -/
def bytesOf {W : Type} (connection : Nat) (log : List (ServerNote W)) : List UInt8 :=
  (log.filterMap fun
    | .read c byte => if c = connection then some byte else none
    | _ => none).reverse

/-- The lines that `on_line` was called with for a connection. -/
def linesOf {W : Type} (connection : Nat) (log : List (ServerNote W)) : List (List UInt8) :=
  (log.filterMap fun
    | .called (.onLine c line) _ _ => if c = connection then some line else none
    | _ => none).reverse

theorem bytesOf_read {W : Type} (c d : Nat) (byte : UInt8) (log : List (ServerNote W)) :
    bytesOf c (.read d byte :: log) = if d = c then bytesOf c log ++ [byte] else bytesOf c log := by
  by_cases h : d = c <;> simp [bytesOf, h]

theorem linesOf_called {W : Type} (c d : Nat) (line : List UInt8) (bound : List Nat) (world : W)
    (log : List (ServerNote W)) :
    linesOf c (.called (.onLine d line) bound world :: log)
      = if d = c then linesOf c log ++ [line] else linesOf c log := by
  by_cases h : d = c <;> simp [linesOf, h]

/-- The events of a server. `turns` is as many turns as the reader's loop may
take; `outside` is what goes on between the events. -/
inductive LineServerEvent (W : Type) where
  | onAccept (connection : Nat) (peer : TcpPeerInfo)
  | onData (connection turns : Nat)
  | onWriteReady (connection : Nat)
  | onClose (connection : Nat)
  | onError (connection : Nat) (errorCode : Int)
  | outside (world : W)

/-- A connection from which a byte has just been read is valid. -/
def ConnectionEnv.ReadLeavesValid {W : Type} (env : ConnectionEnv W) : Prop :=
  ∀ connection world byte, (env.read connection world).1 = some byte →
    (env.valid connection (env.read connection world).2).1 = true

namespace LineServer

variable {W : Type} {N n : Nat} (env : ConnectionEnv W)

def step (s : LineServer W N n) : LineServerEvent W → Option (LineServer W N n)
  | .onAccept connection peer => some (s.onAccept env connection peer)
  | .onData connection turns => s.onData env connection turns
  | .onWriteReady connection => some (s.onWriteReady env connection)
  | .onClose connection => some (s.onClose env connection)
  | .onError connection errorCode => some (s.onError env connection errorCode)
  | .outside world => some { s with world := world }

/-- The reader of the slot that `acquire` finds or binds has no text in hand. -/
def readerClean (s : LineServer W N n) (connection : Nat) : Bool :=
  ((s.find connection).or s.free).all fun i => decide ((s.slots i).reader.size = 0)

end LineServer

/-! ## Sessions -/

/-- How much of a connection lies before its session. -/
structure Past where
  bytes : Nat := 0
  lines : Nat := 0

namespace LineServer

variable {W : Type} {N n : Nat}

/-- The bytes that were read of a connection in its session. -/
def sessionBytes (past : Nat → Past) (s : LineServer W N n) (connection : Nat) : List UInt8 :=
  (bytesOf connection s.log).drop (past connection).bytes

/-- The lines that `on_line` was called with in the session of a connection. -/
def sessionLines (past : Nat → Past) (s : LineServer W N n) (connection : Nat) :
    List (List UInt8) :=
  (linesOf connection s.log).drop (past connection).lines

/-- All there is of a connection is past. -/
def allPast (s : LineServer W N n) (connection : Nat) : Past where
  bytes := (bytesOf connection s.log).length
  lines := (linesOf connection s.log).length

end LineServer

/-- A line server, with what was before the session of each connection. A session begins
with `on_accept`; of a connection that has had one before, at the same address, it is the
last. -/
structure SessionServer (W : Type) (N n : Nat) where
  server : LineServer W N n
  past : Nat → Past := fun _ => {}

namespace SessionServer

variable {W : Type} {N n : Nat} (env : ConnectionEnv W)

def step (t : SessionServer W N n) (e : LineServerEvent W) : Option (SessionServer W N n) :=
  (t.server.step env e).map fun s =>
    { server := s
      past := match e with
        | .onAccept connection _ =>
            Function.update t.past connection (t.server.allPast connection)
        | _ => t.past }

/-- Where a session gets a slot, the reader of the slot has no text in hand, and of the
session none but whole lines have been read. -/
def bindsClean (t : SessionServer W N n) : LineServerEvent W → Bool
  | .onAccept connection _ => t.server.readerClean connection
  | .onData connection _ => (t.server.find connection).isSome || (t.server.readerClean connection
      && LineProtocolReader.endsLine (t.server.sessionBytes t.past connection))
  | _ => true

end SessionServer

namespace LineServer

variable {W : Type} {N n : Nat} (env : ConnectionEnv W) {past : Nat → Past}

/-! ## The invariant -/

structure Isolated (past : Nat → Past) (s : LineServer W N n) : Prop extends Distinct s where
  options : ∀ i, (s.slots i).reader.options = {}
  reader : ∀ i c, (s.slots i).connection = some c → LineProtocolReader.Alike (s.slots i).reader
    (LineProtocolReader.poll (.fresh N {}) (s.sessionBytes past c)).1
  lines : ∀ c, s.sessionLines past c
    = (LineProtocolReader.poll (.fresh N {}) (s.sessionBytes past c)).2
  pastBytes : ∀ c, (past c).bytes ≤ (bytesOf c s.log).length
  pastLines : ∀ c, (past c).lines ≤ (linesOf c s.log).length

/-- Nothing is read and no line delivered, the readers stay as they are, and
connections at most go. -/
structure Quiet (s s' : LineServer W N n) : Prop where
  connection : ∀ i c, (s'.slots i).connection = some c → (s.slots i).connection = some c
  reader : ∀ i, (s'.slots i).reader = (s.slots i).reader
  bytes : ∀ c, bytesOf c s'.log = bytesOf c s.log
  lines : ∀ c, linesOf c s'.log = linesOf c s.log

theorem Quiet.refl (s : LineServer W N n) : Quiet s s :=
  ⟨fun _ _ h => h, fun _ => rfl, fun _ => rfl, fun _ => rfl⟩

theorem Quiet.trans {a b c : LineServer W N n} (h : Quiet a b) (h' : Quiet b c) : Quiet a c :=
  ⟨fun i d hd => h.connection i d (h'.connection i d hd),
    fun i => (h'.reader i).trans (h.reader i), fun d => (h'.bytes d).trans (h.bytes d),
    fun d => (h'.lines d).trans (h.lines d)⟩

theorem Isolated.quiet {s s' : LineServer W N n} (h : Isolated past s) (hq : Quiet s s') :
    Isolated past s' := by
  have hbytes (c : Nat) : s'.sessionBytes past c = s.sessionBytes past c := by
    rw [sessionBytes, hq.bytes, sessionBytes]
  refine ⟨h.toDistinct.of_sub hq.connection, fun i => by rw [hq.reader, h.options],
    ?_, ?_, ?_, ?_⟩
  · intro i c hc
    rw [hq.reader, hbytes]
    exact h.reader i c (hq.connection i c hc)
  · intro c
    rw [hbytes, sessionLines, hq.lines]
    exact h.lines c
  · intro c
    rw [hq.bytes]
    exact h.pastBytes c
  · intro c
    rw [hq.lines]
    exact h.pastLines c

/-! ## What stays quiet -/

theorem ask_quiet {α : Type} (f : W → α × W) (s : LineServer W N n) : Quiet s (s.ask f).2 :=
  ⟨fun _ _ h => h, fun _ => rfl, fun _ => rfl, fun _ => rfl⟩

theorem consult_quiet (s : LineServer W N n) : Quiet s s.consult :=
  ⟨fun _ _ h => h, fun _ => rfl, fun _ => rfl, fun _ => rfl⟩

theorem call_quiet (s : LineServer W N n) {k : AppCall} (hk : ∀ c line, k ≠ .onLine c line) :
    Quiet s (s.call env k) := by
  refine ⟨fun _ _ h => h, fun _ => rfl, fun _ => rfl, ?_⟩
  intro c
  cases k with
  | onLine d line => exact absurd rfl (hk d line)
  | _ => rfl

/-- A slot changes in its monitor, and may lose its connection. -/
theorem putSlot_quiet (s : LineServer W N n) (i : Nat) (slot : LineSlot N)
    (hconnection : ∀ c, slot.connection = some c → (s.slots i).connection = some c)
    (hreader : slot.reader = (s.slots i).reader) : Quiet s (s.putSlot i slot) := by
  refine ⟨?_, ?_, fun _ => rfl, fun _ => rfl⟩
  · intro j c hj
    by_cases hij : j = i
    · subst hij
      exact hconnection c (by simpa [putSlot] using hj)
    · simpa [putSlot, hij] using hj
  · intro j
    by_cases hij : j = i
    · subst hij
      simpa [putSlot] using hreader
    · simp [putSlot, hij]

theorem unbind_quiet (s : LineServer W N n) (i : Nat) : Quiet s (s.unbind i) :=
  s.putSlot_quiet i _ nofun rfl

theorem release_quiet (s : LineServer W N n) (connection : Nat) :
    Quiet s (s.release connection) := by
  unfold release
  dsimp only
  split
  · exact s.consult_quiet.trans (s.consult.unbind_quiet _)
  · exact s.consult_quiet

theorem Looks.quiet {s t : LineServer W N n} (h : Looks env s t) : Quiet s t := by
  induction h with
  | refl => exact .refl _
  | valid connection _ ih => exact ih.trans (ask_quiet _ _)
  | inputSize connection _ ih => exact ih.trans (ask_quiet _ _)
  | outputSize connection _ ih => exact ih.trans (ask_quiet _ _)
  | monitor i m _ ih => exact ih.trans (putSlot_quiet _ i _ (fun _ h => h) rfl)

theorem closeConnection_quiet (s : LineServer W N n) (connection : Nat) :
    Quiet s (s.closeConnection env connection) :=
  ⟨fun _ _ h => h, fun _ => rfl, fun _ => rfl, fun _ => rfl⟩

theorem closeOnLimit_quiet (s : LineServer W N n) (connection : Nat) :
    Quiet s (s.closeOnLimit env connection) := by
  have hvalid : Quiet s (s.andValid env s.options.closeOnLimit connection).2 :=
    ((Looks.refl s).andValid _ connection).quiet
  unfold closeOnLimit
  dsimp only
  split
  · exact hvalid.trans (closeConnection_quiet env _ connection)
  · exact hvalid

theorem limit_quiet (s : LineServer W N n) (i connection : Nat) (info : TcpBackpressureInfo) :
    Quiet s (s.limit env i connection info) := by
  have hcalled : Quiet s (s.call env (.onBackpressure connection info)) :=
    call_quiet env s fun _ _ heq => by cases heq
  have hchecked := (hcalled.trans (closeOnLimit_quiet env _ connection)).trans
    (ask_quiet (env.valid connection) _)
  unfold limit
  dsimp only
  split
  · exact hchecked.trans (unbind_quiet _ i)
  · exact hchecked

theorem checkBackpressure_quiet (s : LineServer W N n) (i : Nat) :
    Quiet s (s.checkBackpressure env i) := by
  unfold checkBackpressure
  split
  · exact .refl s
  · rename_i connection _
    have hvalid := ask_quiet (env.valid connection) s
    have hchecked := hvalid.trans (check_looks env _ i connection).quiet
    dsimp only
    split
    · exact hvalid
    · split
      · exact hchecked
      · exact hchecked.trans (limit_quiet env _ i connection _)

theorem checkAllBackpressure_quiet (s : LineServer W N n) :
    Quiet s (s.checkAllBackpressure env) := by
  unfold checkAllBackpressure
  induction List.range n generalizing s with
  | nil => exact .refl s
  | cons i rest ih => exact (checkBackpressure_quiet env s i).trans (ih _)

/-! ## A session gets a slot -/

theorem bind_isolated {s : LineServer W N n} (h : Isolated past s) {connection i : Nat}
    (hfind : s.find connection = none) (hfree : s.free = some i)
    (hsize : (s.slots i).reader.size = 0)
    (hbytes : LineProtocolReader.endsLine (s.sessionBytes past connection) = true) :
    Isolated past (s.bind i connection) := by
  have hreader : ∀ j, ((s.bind i connection).slots j).reader = (s.slots j).reader := by
    intro j
    by_cases hij : j = i
    · rw [hij, bind_self]
    · rw [bind_of_ne s hij]
  refine ⟨h.toDistinct.bind hfind hfree, ?_, ?_, h.lines, h.pastBytes, h.pastLines⟩
  · intro j
    rw [hreader]
    exact h.options j
  · intro j c hj
    have hsame : (s.bind i connection).sessionBytes past c = s.sessionBytes past c := rfl
    rw [hreader, hsame]
    rcases bind_connection hj with ⟨rfl, rfl⟩ | ⟨-, hj⟩
    · exact LineProtocolReader.alike_endsLine (h.options j) hsize hbytes
    · exact h.reader j c hj

theorem acquire_isolated {s : LineServer W N n} (h : Isolated past s) {connection : Nat}
    (hclean : s.find connection = none → s.readerClean connection = true
      ∧ LineProtocolReader.endsLine (s.sessionBytes past connection) = true) :
    Isolated past (s.acquire connection).2 := by
  have hconsult := h.quiet s.consult_quiet
  have hspec := acquire_spec s connection
  generalize s.acquire connection = r at hspec ⊢
  obtain ⟨slot, s'⟩ := r
  cases hspec with
  | found i hfind => exact hconsult
  | bound i hfind hfree =>
      obtain ⟨hreader, hbytes⟩ := hclean hfind
      have hsize : (s.slots i).reader.size = 0 := by
        simpa [readerClean, hfind, hfree] using hreader
      exact bind_isolated hconsult hfind hfree hsize hbytes
  | full hfind hfree => exact hconsult

theorem sessionBytes_allPast (past : Nat → Past) (s : LineServer W N n) (connection : Nat) :
    s.sessionBytes (Function.update past connection (s.allPast connection)) connection = [] := by
  rw [sessionBytes, Function.update_self, allPast, List.drop_length]

/-- A session begins. If the connection has a slot yet, from a session before, the reader of
the slot has no text in hand. -/
theorem Isolated.begin {s : LineServer W N n} (h : Isolated past s) {connection : Nat}
    (hclean : s.readerClean connection = true) :
    Isolated (Function.update past connection (s.allPast connection)) s := by
  have hbytes := sessionBytes_allPast past s connection
  have hother {c : Nat} (hc : c ≠ connection) :
      Function.update past connection (s.allPast connection) c = past c :=
    Function.update_of_ne hc _ _
  refine ⟨h.toDistinct, h.options, ?_, ?_, ?_, ?_⟩
  · intro i c hi
    by_cases hc : c = connection
    · subst hc
      have hfind : s.find c = some i := by
        cases hfind : s.find c with
        | none => exact absurd hi (h.toDistinct.not_bound hfind i)
        | some j => rw [h.one j i c (find_some hfind) hi]
      have hsize : (s.slots i).reader.size = 0 := by
        simpa [readerClean, hfind] using hclean
      rw [hbytes]
      exact LineProtocolReader.alike_fresh (h.options i) hsize
    · rw [sessionBytes, hother hc]
      exact h.reader i c hi
  · intro c
    by_cases hc : c = connection
    · subst hc
      rw [hbytes, sessionLines, Function.update_self, allPast, List.drop_length]
      rfl
    · rw [sessionLines, sessionBytes, hother hc]
      exact h.lines c
  · intro c
    by_cases hc : c = connection
    · subst hc
      rw [Function.update_self]
      exact Nat.le_refl _
    · rw [hother hc]
      exact h.pastBytes c
  · intro c
    by_cases hc : c = connection
    · subst hc
      rw [Function.update_self]
      exact Nat.le_refl _
    · rw [hother hc]
      exact h.pastLines c

/-! ## Reading a byte -/

/-- One byte is read from the connection of slot `i`, and the line it completes,
if any, is delivered. -/
theorem Isolated.turn {s t : LineServer W N n} (h : Isolated past s) {i connection : Nat}
    {byte : UInt8} (hconnection : (s.slots i).connection = some connection)
    (hsame : ∀ j, (t.slots j).connection = (s.slots j).connection)
    (hself : (t.slots i).reader = ((s.slots i).reader.readByte byte).1)
    (hother : ∀ j, j ≠ i → (t.slots j).reader = (s.slots j).reader)
    (hbytes : ∀ c, bytesOf c t.log
      = if connection = c then bytesOf c s.log ++ [byte] else bytesOf c s.log)
    (hlines : ∀ c, linesOf c t.log
      = if connection = c then linesOf c s.log ++ ((s.slots i).reader.readByte byte).2.toList
        else linesOf c s.log) : Isolated past t := by
  obtain ⟨hline, halike⟩ := (h.reader i connection hconnection).readByte byte
  have hpoll := LineProtocolReader.poll_snoc (.fresh N {}) (s.sessionBytes past connection) byte
  have hown : t.sessionBytes past connection = s.sessionBytes past connection ++ [byte] := by
    rw [sessionBytes, hbytes, if_pos rfl, List.drop_append_of_le_length (h.pastBytes connection),
      sessionBytes]
  have hothers {c : Nat} (hc : connection ≠ c) :
      t.sessionBytes past c = s.sessionBytes past c := by
    rw [sessionBytes, hbytes, if_neg hc, sessionBytes]
  refine ⟨h.toDistinct.of_sub fun j c hj => hsame j ▸ hj, ?_, ?_, ?_, ?_, ?_⟩
  · intro j
    by_cases hij : j = i
    · rw [hij, hself, ← h.options i]
      exact LineProtocolReader.consume_options _ byte
    · rw [hother j hij]
      exact h.options j
  · intro j c hj
    rw [hsame] at hj
    by_cases hij : j = i
    · subst hij
      obtain rfl := Option.some.inj (hconnection.symm.trans hj)
      rw [hself, hown, hpoll]
      exact halike
    · have hne : connection ≠ c := by
        rintro rfl
        exact hij (h.one j i connection hj hconnection)
      rw [hother j hij, hothers hne]
      exact h.reader j c hj
  · intro c
    by_cases hc : connection = c
    · subst hc
      rw [sessionLines, hlines, if_pos rfl, List.drop_append_of_le_length (h.pastLines connection),
        hown, hpoll, ← hline]
      exact congrArg (· ++ _) (h.lines connection)
    · rw [sessionLines, hlines, if_neg hc, hothers hc]
      exact h.lines c
  · intro c
    rw [hbytes]
    refine Nat.le_trans (h.pastBytes c) ?_
    split <;> simp
  · intro c
    rw [hlines]
    refine Nat.le_trans (h.pastLines c) ?_
    split <;> simp

theorem consume_none {s : LineServer W N n} {i : Nat} {byte : UInt8}
    (h : ((s.slots i).reader.readByte byte).2 = none) : s.consume env i byte
      = s.putSlot i { s.slots i with reader := ((s.slots i).reader.readByte byte).1 } := by
  unfold consume
  dsimp only
  rw [h]

theorem consume_some {s : LineServer W N n} {i : Nat} {byte : UInt8} {line : List UInt8}
    (h : ((s.slots i).reader.readByte byte).2 = some line) : s.consume env i byte
      = (s.putSlot i { s.slots i with
        reader := ((s.slots i).reader.readByte byte).1 }).handleLine env i line := by
  unfold consume
  dsimp only
  rw [h]

theorem consume_isolated (henv : env.ReadLeavesValid) {s : LineServer W N n}
    (h : Isolated past s) {i : Nat} {byte : UInt8} (hread : (s.read env i).1 = some byte) :
    Isolated past ((s.read env i).2.consume env i byte) := by
  unfold read at hread ⊢
  cases hconnection : (s.slots i).connection with
  | none =>
      rw [hconnection] at hread
      cases hread
  | some connection =>
      rw [hconnection] at hread
      dsimp only at hread ⊢
      rw [hread]
      have hvalid : (env.valid connection (env.read connection s.world).2).1 = true :=
        henv connection s.world byte hread
      -- the server once the reader has taken the byte
      let taken := (s.ask (env.read connection)).2.note (.read connection byte)
      let slot := { taken.slots i with reader := ((s.slots i).reader.readByte byte).1 }
      have hsame : ∀ j, ((taken.putSlot i slot).slots j).connection = (s.slots j).connection := by
        intro j
        by_cases hij : j = i
        · rw [hij, putSlot_self]
          rfl
        · rw [putSlot_of_ne taken hij]
          rfl
      have hself : ((taken.putSlot i slot).slots i).reader
          = ((s.slots i).reader.readByte byte).1 := by
        rw [putSlot_self]
      have hother : ∀ j, j ≠ i →
          ((taken.putSlot i slot).slots j).reader = (s.slots j).reader := by
        intro j hij
        rw [putSlot_of_ne taken hij]
        rfl
      have hbytes : ∀ c, bytesOf c taken.log
          = if connection = c then bytesOf c s.log ++ [byte] else bytesOf c s.log :=
        fun c => bytesOf_read c connection byte _
      change Isolated past (taken.consume env i byte)
      cases hline : ((s.slots i).reader.readByte byte).2 with
      | none =>
          have htaken : taken.consume env i byte = taken.putSlot i slot := consume_none env hline
          rw [htaken]
          refine h.turn hconnection hsame hself hother hbytes ?_
          intro c
          rw [hline, Option.toList_none, List.append_nil, ite_self]
          rfl
      | some line =>
          have hhandled : (taken.putSlot i slot).handleLine env i line
              = ((taken.putSlot i slot).ask (env.valid connection)).2.call env
                (.onLine connection line) := by
            unfold handleLine
            rw [(hsame i).trans hconnection]
            exact if_pos hvalid
          have hdelivered : taken.consume env i byte
              = ((taken.putSlot i slot).ask (env.valid connection)).2.call env
                (.onLine connection line) := (consume_some env (s := taken) hline).trans hhandled
          rw [hdelivered]
          refine h.turn hconnection hsame hself hother hbytes ?_
          intro c
          rw [hline]
          exact linesOf_called c connection line _ _ _

theorem poll_isolated (henv : env.ReadLeavesValid) {i turns : Nat} {s t : LineServer W N n}
    (h : Isolated past s) (hpoll : s.poll env i turns = some t) : Isolated past t := by
  induction turns generalizing s with
  | zero => cases hpoll
  | succ turns ih =>
      have hready := h.quiet (readable_looks env s i).quiet
      simp only [poll] at hpoll
      split at hpoll
      · obtain rfl := Option.some.inj hpoll
        exact hready
      · split at hpoll
        · rename_i hnone
          obtain rfl := Option.some.inj hpoll
          refine hready.quiet ?_
          unfold read at hnone ⊢
          split
          · exact .refl _
          · rename_i connection hconnection
            rw [hconnection] at hnone
            dsimp only at hnone ⊢
            rw [hnone]
            exact ask_quiet _ _
        · rename_i byte hread
          exact ih (consume_isolated env henv hready hread) hpoll

/-! ## Runs -/

theorem isolated_fresh (N n : Nat) (options : TcpBackpressureOptions) (world : W) :
    Isolated (fun _ => {}) (fresh N n options world) :=
  ⟨distinct_fresh N n options world, fun _ => rfl, nofun, fun _ => rfl, fun _ => Nat.zero_le _,
    fun _ => Nat.zero_le _⟩

end LineServer

namespace SessionServer

open LineServer

variable {W : Type} {N n : Nat} (env : ConnectionEnv W)

/-- **The step lemma.** -/
theorem step_isolated (henv : env.ReadLeavesValid) {t t' : SessionServer W N n}
    {e : LineServerEvent W} (h : t.server.Isolated t.past) (hclean : t.bindsClean e = true)
    (hstep : t.step env e = some t') : t'.server.Isolated t'.past := by
  obtain ⟨s, past⟩ := t
  obtain ⟨s', hserver, rfl⟩ := Option.map_eq_some_iff.mp hstep
  dsimp only at h hserver ⊢
  cases e with
  | onAccept connection peer =>
      obtain rfl := Option.some.inj hserver
      have hbegun : Isolated (Function.update past connection (s.allPast connection)) s :=
        h.begin hclean
      have hacquired : Isolated _ (s.acquire connection).2 := acquire_isolated hbegun fun _ => by
        rw [sessionBytes_allPast]
        exact ⟨hclean, rfl⟩
      unfold onAccept
      dsimp only
      split
      · exact hacquired.quiet (call_quiet env _ fun _ _ heq => by cases heq)
      · rename_i i _
        have hreset := hacquired.quiet (putSlot_quiet (s.acquire connection).2 i
          { (s.acquire connection).2.slots i with
            backpressure := ((s.acquire connection).2.slots i).backpressure.reset }
          (fun _ h => h) rfl)
        exact hreset.quiet (call_quiet env _ fun _ _ heq => by cases heq)
  | onData connection turns =>
      have hacquired : Isolated past (s.acquire connection).2 := acquire_isolated h fun hfind => by
        simpa [bindsClean, hfind] using hclean
      simp only [LineServer.step, onData] at hserver
      split at hserver
      · obtain rfl := Option.some.inj hserver
        exact hacquired.quiet (call_quiet env _ fun _ _ heq => by cases heq)
      · obtain ⟨t, hpoll, rfl⟩ := Option.map_eq_some_iff.mp hserver
        exact (poll_isolated env henv hacquired hpoll).quiet (checkAllBackpressure_quiet env t)
  | onWriteReady connection =>
      obtain rfl := Option.some.inj hserver
      refine h.quiet ?_
      unfold onWriteReady
      dsimp only
      split
      · exact s.consult_quiet.trans (checkBackpressure_quiet env _ _)
      · exact s.consult_quiet
  | onClose connection =>
      obtain rfl := Option.some.inj hserver
      have hcalled : Quiet s (s.call env (.onClose connection)) :=
        call_quiet env s fun _ _ heq => by cases heq
      exact h.quiet (hcalled.trans (release_quiet _ connection))
  | onError connection errorCode =>
      obtain rfl := Option.some.inj hserver
      have hcalled : Quiet s (s.call env (.onError connection errorCode)) :=
        call_quiet env s fun _ _ heq => by cases heq
      exact h.quiet (hcalled.trans (release_quiet _ connection))
  | outside world =>
      obtain rfl := Option.some.inj hserver
      exact ⟨⟨h.range, h.one⟩, h.options, h.reader, h.lines, h.pastBytes, h.pastLines⟩

/-- **Lines are isolated**: in every run in which sessions get their slots clean, the lines of
a session are those of a fresh reader on the bytes of that session. An earlier session of the
same connection is that of a shorter run. -/
theorem lines_isolated (henv : env.ReadLeavesValid) (options : TcpBackpressureOptions)
    {world : W} {t : SessionServer W N n} {es : List (LineServerEvent W)}
    (hrun : run (restrict bindsClean (step env)) { server := fresh N n options world } es
      = some t) (connection : Nat) : t.server.sessionLines t.past connection
      = (LineProtocolReader.poll (.fresh N {}) (t.server.sessionBytes t.past connection)).2 := by
  have hisolated : t.server.Isolated t.past := by
    refine run_invariant (I := fun t => t.server.Isolated t.past) ?_
      (isolated_fresh N n options world) hrun
    intro t e t' h hs
    obtain ⟨hclean, hstep⟩ := restrict_eq_some.mp hs
    exact step_isolated env henv h hclean hstep
  exact hisolated.lines connection

/-- Connections that are queues of bytes, and a handler that does nothing. -/
def pipes : ConnectionEnv (Nat → List UInt8) where
  valid _ w := (true, w)
  inputSize c w := ((w c).length, w)
  outputSize _ w := (0, w)
  read c w := ((w c).head?, Function.update w c (w c).tail)
  close c w := Function.update w c []
  app _ w := w

/-- Three sessions in the only slot: the first ends behind a whole line and without
`on_close`, the second is at the same address. -/
theorem lines_isolated_run : ∃ t : SessionServer (Nat → List UInt8) 8 1,
    run (restrict bindsClean (step pipes)) { server := fresh 8 1 {} fun _ => [] }
        [.onAccept 0 {}, .outside (Function.update (fun _ => []) 0 [97, 98, 10]), .onData 0 4,
          .onAccept 0 {}, .outside (Function.update (fun _ => []) 0 [99, 10]), .onData 0 4,
          .onClose 0, .onAccept 1 {}, .outside (Function.update (fun _ => []) 1 [120, 10]),
          .onData 1 4] = some t
      ∧ linesOf 0 t.server.log = [[97, 98], [99]]
      ∧ t.server.sessionLines t.past 0
        = (LineProtocolReader.poll (.fresh 8 {}) (t.server.sessionBytes t.past 0)).2 := by
  have hrun : run (restrict bindsClean (step pipes))
      ({ server := fresh 8 1 {} fun _ => [] } : SessionServer (Nat → List UInt8) 8 1)
      [.onAccept 0 {}, .outside (Function.update (fun _ => []) 0 [97, 98, 10]), .onData 0 4,
        .onAccept 0 {}, .outside (Function.update (fun _ => []) 0 [99, 10]), .onData 0 4,
        .onClose 0, .onAccept 1 {}, .outside (Function.update (fun _ => []) 1 [120, 10]),
        .onData 1 4] = some _ := rfl
  exact ⟨_, hrun, rfl, lines_isolated pipes (fun _ _ _ _ => rfl) {} hrun 0⟩

/-- Without the condition: the first session ends in the middle of a line, and
what was read of it is delivered in the first line of the second. -/
theorem line_leaks_to_next_session : ∃ t : SessionServer (Nat → List UInt8) 8 1,
    run (step pipes) { server := fresh 8 1 {} fun _ => [] }
        [.onAccept 0 {}, .outside (Function.update (fun _ => []) 0 [97, 98]), .onData 0 4,
          .onClose 0, .onAccept 1 {}, .outside (Function.update (fun _ => []) 1 [120, 10]),
          .onData 1 4] = some t
      ∧ t.server.sessionBytes t.past 1 = [120, 10]
      ∧ t.server.sessionLines t.past 1 = [[97, 98, 120]]
      ∧ t.server.sessionLines t.past 1
        ≠ (LineProtocolReader.poll (.fresh 8 {}) (t.server.sessionBytes t.past 1)).2 := by
  refine ⟨_, rfl, rfl, rfl, ?_⟩
  intro h
  revert h
  decide

end SessionServer

end AsyncEventLoop
