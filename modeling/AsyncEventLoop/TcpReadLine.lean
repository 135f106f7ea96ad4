import AsyncEventLoop.LineReader

/-!
# `read_line` on both ends of a connection

`LinuxTcpConnection` searches its input buffer, which has no bound, and
truncates the line as it copies it. `LinuxTcpClientConnection` takes one byte
after another from its socket into a buffer of 256, which it clears when a
byte does not fit, and keeps what it has of a line from call to call.

Each is a `LineSource`: what a call returns depends on the line alone, given
what is left of it (`text`). How the bytes arrive makes no difference, and
the two agree on a stream exactly if they agree on its lines.

`ArduinoWiFiTcpConnection` has a buffer of 256, too, and the same loop over the
bytes of its `WiFiClient`. It and the `LinuxTcpClientConnection` return the
lines of a `LineProtocolReader` with a buffer of that size.
-/

namespace AsyncEventLoop

/-! ## Reading until there is no line -/

section Arrivals

variable {σ : Type}

/-- `read_line` until it returns false. -/
def readUntilFalse (readLine : σ → Option (List UInt8) × σ) :
    (turns : Nat) → σ → Option (List (List UInt8) × σ)
  | 0, _ => none
  | turns + 1, s =>
      let r := readLine s
      match r.1 with
      | none => some ([], r.2)
      | some line =>
          (readUntilFalse readLine turns r.2).map fun rest => (line :: rest.1, rest.2)

/-- The same after each arrival. -/
def readArrivals (receive : List UInt8 → σ → σ) (readLine : σ → Option (List UInt8) × σ)
    (s : σ) : List (List UInt8) → Option (List (List UInt8))
  | [] => some []
  | arrival :: arrivals =>
      (readUntilFalse readLine (arrival.length + 1) (receive arrival s)).bind fun r =>
        (readArrivals receive readLine r.2 arrivals).map (r.1 ++ ·)

/-- A reader of lines: `At s open bytes` says that `open` is what was read of the
line so far, and `bytes` are not looked at yet. A line is returned as its `text`. -/
structure LineSource (receive : List UInt8 → σ → σ) (readLine : σ → Option (List UInt8) × σ)
    (text : List UInt8 → List UInt8) (At : σ → List UInt8 → List UInt8 → Prop) : Prop where
  receive : ∀ {s opened} (arrival), At s opened [] → At (receive arrival s) opened arrival
  noLine : ∀ {s opened bytes}, At s opened bytes → 10 ∉ bytes →
    ∃ t, readLine s = (none, t) ∧ At t (opened ++ bytes) []
  line : ∀ {s opened bytes rest}, At s opened (bytes ++ 10 :: rest) → 10 ∉ bytes →
    ∃ t, readLine s = (some (text (opened ++ bytes)), t) ∧ At t [] rest
  opened : ∀ {s opened bytes}, At s opened bytes → 10 ∉ opened

/-- Cutting a stream cuts its last segment. -/
theorem splitOn_append (xs ys : List UInt8) :
    (xs ++ ys).splitOn 10
      = (xs.splitOn 10).dropLast ++ ((xs.splitOn 10).getLastD [] ++ ys).splitOn 10 := by
  induction hlength : xs.length using Nat.strong_induction_on generalizing xs with
  | h length ih =>
      by_cases hmem : 10 ∈ xs
      · obtain ⟨line, rest, rfl, hline⟩ := List.eq_append_cons_of_mem hmem
        have hne := List.splitOn_ne_nil 10 rest
        have hrest := ih rest.length (by
          rw [← hlength, List.length_append, List.length_cons]
          omega) rest rfl
        have hlast : (line :: rest.splitOn 10).getLastD [] = (rest.splitOn 10).getLastD [] := by
          rw [List.getLastD_cons, List.getLastD_eq_getLast?, List.getLastD_eq_getLast?,
            List.getLast?_eq_some_getLast hne]
          rfl
        rw [List.append_assoc, List.cons_append, List.splitOn_append_cons_self,
          List.splitOn_append_cons_self, List.splitOn_eq_singleton hline, hrest,
          List.singleton_append, List.singleton_append, hlast, List.dropLast_cons_of_ne_nil hne,
          List.cons_append]
      · rw [List.splitOn_eq_singleton hmem]
        rfl

variable {receive : List UInt8 → σ → σ} {readLine : σ → Option (List UInt8) × σ}
  {text : List UInt8 → List UInt8} {At : σ → List UInt8 → List UInt8 → Prop}

theorem LineSource.untilFalse (h : LineSource receive readLine text At) {turns : Nat}
    {s : σ} {opened bytes : List UInt8} (hs : At s opened bytes) (hturns : bytes.length < turns) :
    ∃ t, readUntilFalse readLine turns s
        = some (((opened ++ bytes).splitOn 10).dropLast.map text, t)
      ∧ At t (((opened ++ bytes).splitOn 10).getLastD []) [] := by
  induction turns generalizing s opened bytes with
  | zero => omega
  | succ turns ih =>
      unfold readUntilFalse
      by_cases hmem : 10 ∈ bytes
      · obtain ⟨line, rest, rfl, hline⟩ := List.eq_append_cons_of_mem hmem
        obtain ⟨t, hread, ht⟩ := h.line hs hline
        have hshort : rest.length < turns := by
          rw [List.length_append, List.length_cons] at hturns
          omega
        obtain ⟨u, hrest, hu⟩ := ih ht hshort
        have hopened : 10 ∉ opened ++ line := by
          rw [List.mem_append, not_or]
          exact ⟨h.opened hs, hline⟩
        have hne := List.splitOn_ne_nil 10 rest
        have hsplit : (opened ++ (line ++ 10 :: rest)).splitOn 10
            = (opened ++ line) :: rest.splitOn 10 := by
          rw [← List.append_assoc, List.splitOn_append_cons_self,
            List.splitOn_eq_singleton hopened]
          rfl
        rw [List.nil_append] at hrest hu
        refine ⟨u, ?_, ?_⟩
        · rw [hread]
          dsimp only
          rw [hrest, Option.map_some, hsplit, List.dropLast_cons_of_ne_nil hne, List.map_cons]
        · rw [hsplit, List.getLastD_cons]
          rwa [List.getLastD_eq_getLast?, List.getLast?_eq_some_getLast hne] at hu ⊢
      · obtain ⟨t, hread, ht⟩ := h.noLine hs hmem
        have hopened : 10 ∉ opened ++ bytes := by
          rw [List.mem_append, not_or]
          exact ⟨h.opened hs, hmem⟩
        rw [hread, List.splitOn_eq_singleton hopened]
        exact ⟨t, rfl, ht⟩

/-- **However the bytes arrive**, the lines are those of the stream. -/
theorem LineSource.arrivals (h : LineSource receive readLine text At)
    (arrivals : List (List UInt8)) {s : σ} {opened : List UInt8} (hs : At s opened []) :
    readArrivals receive readLine s arrivals
      = some (((opened ++ arrivals.flatten).splitOn 10).dropLast.map text) := by
  induction arrivals generalizing s opened with
  | nil =>
      rw [List.flatten_nil, List.append_nil, List.splitOn_eq_singleton (h.opened hs)]
      rfl
  | cons arrival arrivals ih =>
      obtain ⟨t, hread, ht⟩ := h.untilFalse (h.receive arrival hs) (Nat.lt_succ_self _)
      have hne := List.splitOn_ne_nil 10
        (((opened ++ arrival).splitOn 10).getLastD [] ++ arrivals.flatten)
      unfold readArrivals
      rw [hread, Option.bind_some, ih ht, Option.map_some, List.flatten_cons,
        ← List.append_assoc, splitOn_append (opened ++ arrival),
        List.dropLast_append_of_ne_nil hne, List.map_append]

/-- Two readers that go through corresponding states return the same lines. -/
theorem readUntilFalse_twin {τ : Type} {readLine' : τ → Option (List UInt8) × τ} {twin : σ → τ}
    (hread : ∀ s, readLine' (twin s) = ((readLine s).1, twin (readLine s).2)) (turns : Nat)
    (s : σ) :
    readUntilFalse readLine' turns (twin s)
      = (readUntilFalse readLine turns s).map fun r => (r.1, twin r.2) := by
  induction turns generalizing s with
  | zero => rfl
  | succ turns ih =>
      unfold readUntilFalse
      rw [hread]
      dsimp only
      cases (readLine s).1 with
      | none => rfl
      | some line =>
          dsimp only
          rw [ih, Option.map_map, Option.map_map]
          rfl

theorem readArrivals_twin {τ : Type} {receive' : List UInt8 → τ → τ}
    {readLine' : τ → Option (List UInt8) × τ} {twin : σ → τ}
    (hreceive : ∀ arrival s, receive' arrival (twin s) = twin (receive arrival s))
    (hread : ∀ s, readLine' (twin s) = ((readLine s).1, twin (readLine s).2))
    (arrivals : List (List UInt8)) (s : σ) :
    readArrivals receive' readLine' (twin s) arrivals
      = readArrivals receive readLine s arrivals := by
  induction arrivals generalizing s with
  | nil => rfl
  | cons arrival arrivals ih =>
      unfold readArrivals
      rw [hreceive, readUntilFalse_twin hread, Option.bind_map]
      exact congrArg _ (funext fun r => congrArg _ (ih r.2))

end Arrivals

/-! ## The two connections -/

/-- The carriage return at the end of a line, dropped if that is asked for. -/
def lessCr (stripCr : Bool) (line : List UInt8) : List UInt8 :=
  if stripCr ∧ line.getLast? = some 13 then line.dropLast else line

/-- What `read_line` leaves in a buffer of `maxLen` for a line. -/
def copied (maxLen : Nat) (stripCr : Bool) (line : List UInt8) : List UInt8 :=
  (lessCr stripCr line).take (maxLen - 1) ++ [0]

/-- The string in a buffer. -/
def cString (dst : List UInt8) : List UInt8 := dst.takeWhile (· ≠ 0)

/-- `evbuffer_readln` with `EVBUFFER_EOL_LF`: the bytes up to the first newline,
which are taken out of the buffer with it. -/
def evbufferReadln (input : List UInt8) : Option (List UInt8) × List UInt8 :=
  if 10 ∈ input then
    (some (input.takeWhile (· ≠ 10)), (input.dropWhile (· ≠ 10)).tail)
  else (none, input)

/-- `read_line` of an open `LinuxTcpConnection`, on its input buffer. -/
def LinuxTcpConnection.readLine (maxLen : Nat) (stripCr : Bool) (input : List UInt8) :
    Option (List UInt8) × List UInt8 :=
  if maxLen = 0 then (none, input)
  else
    let r := evbufferReadln input
    match r.1 with
    | none => (none, r.2)
    | some text =>
        let n := text.length
        let n := if stripCr ∧ n > 0 ∧ text[n - 1]? = some 13 then n - 1 else n
        let copy := if n < maxLen - 1 then n else maxLen - 1
        (some (text.take copy ++ [0]), r.2)

def LinuxTcpConnection.receive (arrival input : List UInt8) : List UInt8 := input ++ arrival

/-- `LinuxTcpClientConnection`, open; `input` is what the socket has. -/
structure LinuxTcpClientConnection where
  input : List UInt8 := []
  line : Vector UInt8 256 := Vector.replicate 256 0
  lineSize : Nat := 0

namespace LinuxTcpClientConnection

open FixedArray

/-- The loop of `read_line` on what the socket has; `read` returns 0 when that is
used up. -/
def readLoop (maxLen : Nat) (stripCr : Bool) (c : LinuxTcpClientConnection) :
    List UInt8 → Option (List UInt8) × LinuxTcpClientConnection
  | [] => (none, { c with input := [] })
  | byte :: input =>
      if byte = 10 then
        let len := c.lineSize
        let len := if stripCr ∧ len > 0 ∧ c.line[len - 1]? = some 13 then len - 1 else len
        let copy := if len < maxLen - 1 then len else maxLen - 1
        (some (front c.line copy ++ [0]), { c with input := input, lineSize := 0 })
      else if h : c.lineSize < 256 then
        readLoop maxLen stripCr
          { c with line := c.line.set c.lineSize byte h, lineSize := c.lineSize + 1 } input
      else readLoop maxLen stripCr { c with lineSize := 0 } input

def readLine (maxLen : Nat) (stripCr : Bool) (c : LinuxTcpClientConnection) :
    Option (List UInt8) × LinuxTcpClientConnection :=
  if maxLen = 0 then (none, c) else c.readLoop maxLen stripCr c.input

def receive (arrival : List UInt8) (c : LinuxTcpClientConnection) : LinuxTcpClientConnection :=
  { c with input := c.input ++ arrival }

end LinuxTcpClientConnection

/-! ## What they return -/

/-- The length of a line less its carriage return, as both count it. -/
theorem lessCr_eq_take (stripCr : Bool) (text : List UInt8) :
    lessCr stripCr text
      = text.take (if stripCr ∧ text.length > 0 ∧ text[text.length - 1]? = some 13
        then text.length - 1 else text.length) := by
  unfold lessCr
  rw [List.getLast?_eq_getElem?]
  by_cases hcr : stripCr ∧ text.length > 0 ∧ text[text.length - 1]? = some 13
  · rw [if_pos hcr, if_pos (And.intro hcr.1 hcr.2.2), List.dropLast_eq_take]
  · have hnot : ¬(stripCr ∧ text[text.length - 1]? = some 13) := by
      rintro ⟨hstrip, hsome⟩
      have hlt := (List.getElem?_eq_some_iff.mp hsome).1
      exact hcr ⟨hstrip, by omega, hsome⟩
    rw [if_neg hcr, if_neg hnot, List.take_length]

theorem take_copied (maxLen : Nat) (stripCr : Bool) {text : List UInt8} {len : Nat}
    (hlen : len = if stripCr ∧ text.length > 0 ∧ text[text.length - 1]? = some 13
      then text.length - 1 else text.length) :
    text.take (if len < maxLen - 1 then len else maxLen - 1) ++ [0]
      = copied maxLen stripCr text := by
  unfold copied
  rw [lessCr_eq_take, ← hlen, List.take_take]
  congr 2
  split <;> omega

theorem linuxTcpConnection_lineSource {maxLen : Nat} (hmax : 1 ≤ maxLen) (stripCr : Bool) :
    LineSource LinuxTcpConnection.receive (LinuxTcpConnection.readLine maxLen stripCr)
      (copied maxLen stripCr) fun input opened bytes => 10 ∉ opened ∧ input = opened ++ bytes where
  receive arrival h := by
    refine ⟨h.1, ?_⟩
    rw [LinuxTcpConnection.receive, h.2, List.append_nil]
  noLine := by
    rintro s opened bytes ⟨hopened, rfl⟩ hbytes
    have hnone : 10 ∉ opened ++ bytes := by
      rw [List.mem_append, not_or]
      exact ⟨hopened, hbytes⟩
    refine ⟨opened ++ bytes, ?_, hnone, (List.append_nil _).symm⟩
    rw [LinuxTcpConnection.readLine, if_neg (by omega), evbufferReadln, if_neg hnone]
  line := by
    rintro s opened bytes rest ⟨hopened, rfl⟩ hbytes
    have hline : 10 ∉ opened ++ bytes := by
      rw [List.mem_append, not_or]
      exact ⟨hopened, hbytes⟩
    have htext : ∀ b ∈ opened ++ bytes, decide (b ≠ 10) = true := fun b hb => by
      rw [decide_eq_true_eq]
      rintro rfl
      exact hline hb
    have hreadln : evbufferReadln (opened ++ (bytes ++ 10 :: rest))
        = (some (opened ++ bytes), rest) := by
      rw [evbufferReadln, if_pos (by simp), ← List.append_assoc,
        List.takeWhile_append_of_pos htext, List.dropWhile_append_of_pos htext]
      simp
    refine ⟨rest, ?_, List.not_mem_nil, rfl⟩
    rw [LinuxTcpConnection.readLine, if_neg (by omega), hreadln]
    dsimp only
    rw [take_copied maxLen stripCr rfl]
  opened h := h.1

namespace LinuxTcpClientConnection

open FixedArray LineProtocolReader

/-- The buffer holds what is kept of the line so far. -/
structure Holds (c : LinuxTcpClientConnection) (opened : List UInt8) : Prop where
  noNewline : 10 ∉ opened
  text : front c.line c.lineSize = kept {} 256 opened
  size_le : c.lineSize ≤ 256

theorem Holds.size_eq {c : LinuxTcpClientConnection} {opened : List UInt8} (h : Holds c opened) :
    (kept {} 256 opened).length = c.lineSize := by
  rw [← h.text, length_front _ h.size_le]

variable (maxLen : Nat) (stripCr : Bool)

/-- One turn of the loop, on a byte of the line. -/
theorem Holds.readByte {c : LinuxTcpClientConnection} {opened : List UInt8} (h : Holds c opened)
    {byte : UInt8} (hbyte : byte ≠ 10) : ∃ c', Holds c' (opened ++ [byte])
      ∧ ∀ rest, c.readLoop maxLen stripCr (byte :: rest) = c'.readLoop maxLen stripCr rest := by
  have hline : 10 ∉ opened ++ [byte] := by
    rw [List.mem_append, not_or, List.mem_singleton]
    exact ⟨h.noNewline, hbyte.symm⟩
  by_cases hfits : c.lineSize < 256
  · have hkept := (kept_snoc_fits {} byte (h.size_eq ▸ hfits)).1
    refine ⟨{ c with line := c.line.set c.lineSize byte hfits, lineSize := c.lineSize + 1 },
      ⟨hline, ?_, hfits⟩, ?_⟩
    · rw [front_push, hkept, h.text]
    · intro rest
      rw [LinuxTcpClientConnection.readLoop, if_neg hbyte, dif_pos hfits]
  · have hfull : (kept {} 256 opened).length = 256 := by
      have hle := h.size_le
      rw [h.size_eq]
      omega
    have hkept := (kept_snoc_full {} byte hfull).1
    refine ⟨{ c with lineSize := 0 }, ⟨hline, ?_, Nat.zero_le _⟩, ?_⟩
    · rw [front_zero, hkept]
      rfl
    · intro rest
      rw [LinuxTcpClientConnection.readLoop, if_neg hbyte, dif_neg hfits]

theorem Holds.readBytes {c : LinuxTcpClientConnection} {opened : List UInt8} (h : Holds c opened)
    {bytes : List UInt8} (hbytes : 10 ∉ bytes) : ∃ c', Holds c' (opened ++ bytes)
      ∧ ∀ rest, c.readLoop maxLen stripCr (bytes ++ rest) = c'.readLoop maxLen stripCr rest := by
  induction bytes generalizing c opened with
  | nil => exact ⟨c, by rwa [List.append_nil], fun _ => rfl⟩
  | cons byte bytes ih =>
      rw [List.mem_cons, not_or] at hbytes
      obtain ⟨d, hd, hbyte⟩ := h.readByte maxLen stripCr (Ne.symm hbytes.1)
      obtain ⟨c', hc', hrest⟩ := ih hd hbytes.2
      rw [List.append_assoc, List.singleton_append] at hc'
      exact ⟨c', hc', fun rest => (hbyte (bytes ++ rest)).trans (hrest rest)⟩

/-- The newline ends the line, and the loop. -/
theorem Holds.readNewline {c : LinuxTcpClientConnection} {opened : List UInt8} (h : Holds c opened)
    (rest : List UInt8) : c.readLoop maxLen stripCr (10 :: rest)
      = (some (copied maxLen stripCr (kept {} 256 opened)),
        { c with input := rest, lineSize := 0 }) := by
  have hsize := h.size_eq
  have hcells : ∀ k ≤ c.lineSize, front c.line k = (kept {} 256 opened).take k := fun k hk => by
    rw [← h.text, front, front, List.take_take, Nat.min_eq_left hk]
  have hlast : c.lineSize > 0 →
      c.line[c.lineSize - 1]? = (kept {} 256 opened)[c.lineSize - 1]? := fun hpos => by
    rw [← h.text, front_getElem? _ (by omega)]
  rw [LinuxTcpClientConnection.readLoop, if_pos rfl]
  dsimp only
  rw [← take_copied maxLen stripCr rfl, hsize]
  by_cases hpos : c.lineSize > 0
  · rw [hlast hpos, hcells]
    split <;> split <;> omega
  · have hzero : c.lineSize = 0 := by omega
    have hnil : kept {} 256 opened = [] :=
      List.eq_nil_of_length_eq_zero (hsize.trans hzero)
    have hcopy : (if 0 < maxLen - 1 then 0 else maxLen - 1) = 0 := by
      split <;> omega
    have hnoCr : ∀ p, ¬(stripCr = true ∧ c.lineSize > 0 ∧ p) := fun _ hcr => hpos hcr.2.1
    rw [if_neg (hnoCr _), if_neg (hnoCr _), hzero, hcopy, hnil, front_zero, List.take_nil]

variable {maxLen} in
theorem lineSource (hmax : 1 ≤ maxLen) :
    LineSource receive (readLine maxLen stripCr)
      (fun line => copied maxLen stripCr (kept {} 256 line))
      fun c opened bytes => Holds c opened ∧ c.input = bytes where
  receive arrival h := by
    refine ⟨⟨h.1.noNewline, h.1.text, h.1.size_le⟩, ?_⟩
    rw [receive, h.2, List.nil_append]
  noLine := by
    rintro c opened bytes ⟨h, rfl⟩ hbytes
    obtain ⟨c', hc', hread⟩ := h.readBytes maxLen stripCr hbytes
    have hend := hread []
    rw [List.append_nil] at hend
    refine ⟨{ c' with input := [] }, ?_, ⟨hc'.noNewline, hc'.text, hc'.size_le⟩, rfl⟩
    rw [readLine, if_neg (by omega), hend]
    rfl
  line := by
    rintro c opened bytes rest ⟨h, hinput⟩ hbytes
    obtain ⟨c', hc', hread⟩ := h.readBytes maxLen stripCr hbytes
    refine ⟨{ c' with input := rest, lineSize := 0 }, ?_,
      ⟨List.not_mem_nil, front_zero _, Nat.zero_le _⟩, rfl⟩
    rw [readLine, if_neg (by omega), hinput, hread, hc'.readNewline]
  opened h := h.1.noNewline

end LinuxTcpClientConnection

/-! ## Agreement -/

/-- What the client's buffer of 256 bytes is left with of a line. -/
theorem kept_line (line : List UInt8) :
    LineProtocolReader.kept {} 256 line = line.drop (line.length - line.length % 257) :=
  if_pos rfl

theorem server_lines {maxLen : Nat} (hmax : 1 ≤ maxLen) (stripCr : Bool)
    (arrivals : List (List UInt8)) :
    readArrivals LinuxTcpConnection.receive (LinuxTcpConnection.readLine maxLen stripCr) []
        arrivals
      = some ((arrivals.flatten.splitOn 10).dropLast.map (copied maxLen stripCr)) := by
  have hstart : 10 ∉ ([] : List UInt8) ∧ ([] : List UInt8) = [] ++ [] := ⟨List.not_mem_nil, rfl⟩
  exact (linuxTcpConnection_lineSource hmax stripCr).arrivals arrivals hstart

theorem client_lines {maxLen : Nat} (hmax : 1 ≤ maxLen) (stripCr : Bool)
    (arrivals : List (List UInt8)) :
    readArrivals LinuxTcpClientConnection.receive
        (LinuxTcpClientConnection.readLine maxLen stripCr) {} arrivals
      = some ((arrivals.flatten.splitOn 10).dropLast.map fun line =>
        copied maxLen stripCr (line.drop (line.length - line.length % 257))) := by
  have hstart : LinuxTcpClientConnection.Holds {} [] ∧ ({} : LinuxTcpClientConnection).input = [] :=
    ⟨⟨List.not_mem_nil, rfl, Nat.zero_le _⟩, rfl⟩
  have hlines := (LinuxTcpClientConnection.lineSource stripCr hmax).arrivals arrivals hstart
  simpa only [kept_line, List.nil_append] using hlines

/-- **`read_line` agrees on the two ends exactly if it does on the long lines**:
on any stream, however it arrives, both return the same strings if and only if
of every line over 256 bytes the whole and its last `length % 257` bytes come
out as the same string. -/
theorem read_line_agrees_iff {maxLen : Nat} (hmax : 1 ≤ maxLen) (stripCr : Bool)
    (arrivals : List (List UInt8)) :
    ∃ server client,
      readArrivals LinuxTcpConnection.receive (LinuxTcpConnection.readLine maxLen stripCr)
          [] arrivals = some server
      ∧ readArrivals LinuxTcpClientConnection.receive
          (LinuxTcpClientConnection.readLine maxLen stripCr) {} arrivals = some client
      ∧ (server.map cString = client.map cString
        ↔ ∀ line ∈ (arrivals.flatten.splitOn 10).dropLast, 256 < line.length →
          cString (copied maxLen stripCr line)
            = cString (copied maxLen stripCr
              (line.drop (line.length - line.length % 257)))) := by
  refine ⟨_, _, server_lines hmax stripCr arrivals, client_lines hmax stripCr arrivals, ?_⟩
  rw [List.map_map, List.map_map, List.map_inj_left]
  refine forall_congr' fun line => forall_congr' ?_
  intro _
  rw [Function.comp_apply, Function.comp_apply]
  refine ⟨fun h _ => h, ?_⟩
  intro h
  by_cases hlong : 256 < line.length
  · exact h hlong
  · rw [Nat.mod_eq_of_lt (by omega), Nat.sub_self, List.drop_zero]

/-- A line in two arrivals, with a carriage return. -/
theorem read_line_agrees_run : ∃ server client,
    readArrivals LinuxTcpConnection.receive (LinuxTcpConnection.readLine 8 true) []
        [[97, 98], [99, 13, 10]] = some server
      ∧ readArrivals LinuxTcpClientConnection.receive (LinuxTcpClientConnection.readLine 8 true)
        {} [[97, 98], [99, 13, 10]] = some client
      ∧ server.map cString = [[97, 98, 99]] ∧ server.map cString = client.map cString := by
  obtain ⟨server, client, hserver, hclient, hiff⟩ :=
    read_line_agrees_iff (show 1 ≤ 8 by omega) true [[97, 98], [99, 13, 10]]
  refine ⟨server, client, hserver, hclient, ?_, hiff.mpr ?_⟩
  · obtain rfl := Option.some.inj hserver
    rfl
  · intro line hline hlong
    have heq : line = [97, 98, 99, 13] := List.mem_singleton.mp hline
    rw [heq] at hlong
    exact absurd hlong (by decide)

/-- A long line without a NUL never comes out the same, if the caller's buffer
holds it. -/
theorem long_line_differs {maxLen : Nat} (stripCr : Bool) {line : List UInt8}
    (hlong : 256 < line.length) (hnul : 0 ∉ line) (hroom : line.length < maxLen) :
    cString (copied maxLen stripCr line)
      ≠ cString (copied maxLen stripCr (line.drop (line.length - line.length % 257))) := by
  have hshown : ∀ text : List UInt8, 0 ∉ text → text.length < maxLen →
      cString (copied maxLen stripCr text) = lessCr stripCr text := fun text htext hlen => by
    have hsub : (lessCr stripCr text).Sublist text := by
      unfold lessCr
      split
      · exact List.dropLast_sublist text
      · exact List.Sublist.refl text
    have hle := hsub.length_le
    have hnone : ∀ b ∈ lessCr stripCr text, decide (b ≠ 0) = true := fun b hb => by
      rw [decide_eq_true_eq]
      rintro rfl
      exact htext (hsub.subset hb)
    rw [cString, copied, List.take_of_length_le (by omega), List.takeWhile_append_of_pos hnone]
    simp
  have hlength : ∀ text : List UInt8, text.length - 1 ≤ (lessCr stripCr text).length
      ∧ (lessCr stripCr text).length ≤ text.length := fun text => by
    unfold lessCr
    split
    · rw [List.length_dropLast]
      omega
    · omega
  have hmod : line.length % 257 < 257 := Nat.mod_lt _ (by omega)
  rw [hshown line hnul hroom, hshown _ (fun h => hnul (List.mem_of_mem_drop h))
    (by rw [List.length_drop]; omega)]
  intro heq
  have hsame := congrArg List.length heq
  have hwhole := hlength line
  have hrest := hlength (line.drop (line.length - line.length % 257))
  rw [List.length_drop] at hrest
  -- only a line of 257 bytes could lose as little as a carriage return
  have hexact : line.length = 257 := by omega
  omega

/-- A line of 257 bytes: the client returns the empty string. -/
theorem read_line_disagrees : ∃ server client,
    readArrivals LinuxTcpConnection.receive (LinuxTcpConnection.readLine 512 true) []
        [List.replicate 257 97 ++ [10]] = some server
      ∧ readArrivals LinuxTcpClientConnection.receive (LinuxTcpClientConnection.readLine 512 true)
        {} [List.replicate 257 97 ++ [10]] = some client
      ∧ client.map cString = [[]] ∧ server.map cString ≠ client.map cString := by
  have hsplit : ([List.replicate 257 97 ++ [10]].flatten.splitOn 10).dropLast
      = [List.replicate 257 (97 : UInt8)] := by
    rw [List.flatten_singleton, List.splitOn_append_cons_self,
      List.splitOn_eq_singleton (by rw [List.mem_replicate]; rintro ⟨-, h⟩; cases h)]
    rfl
  refine ⟨_, _, server_lines (by omega) true _, client_lines (by omega) true _, ?_⟩
  rw [hsplit]
  refine ⟨by rw [List.map_singleton, List.length_replicate]; rfl, ?_⟩
  intro heq
  have hfirst := (List.cons.inj heq).1
  refine absurd hfirst (long_line_differs true ?_ ?_ ?_)
  · rw [List.length_replicate]
    omega
  · rw [List.mem_replicate]
    rintro ⟨-, h⟩
    cases h
  · rw [List.length_replicate]
    omega

/-! ## The protocol reader -/

/-- `ArduinoWiFiTcpConnection`, as far as `read_line` goes; `input` is what the
`WiFiClient` has. -/
structure ArduinoLineInput where
  input : List UInt8 := []
  line : Vector UInt8 256 := Vector.replicate 256 0
  lineSize : Nat := 0

namespace ArduinoLineInput

open FixedArray

/-- The loop of `read_line`, as long as `available` is positive. -/
def readLoop (maxLen : Nat) (stripCr : Bool) (c : ArduinoLineInput) :
    List UInt8 → Option (List UInt8) × ArduinoLineInput
  | [] => (none, { c with input := [] })
  | byte :: input =>
      if byte = 10 then
        let len := c.lineSize
        let len := if stripCr ∧ len > 0 ∧ c.line[len - 1]? = some 13 then len - 1 else len
        let copy := if len < maxLen - 1 then len else maxLen - 1
        (some (front c.line copy ++ [0]), { c with input := input, lineSize := 0 })
      else if h : c.lineSize < 256 then
        readLoop maxLen stripCr
          { c with line := c.line.set c.lineSize byte h, lineSize := c.lineSize + 1 } input
      else readLoop maxLen stripCr { c with lineSize := 0 } input

def readLine (maxLen : Nat) (stripCr : Bool) (c : ArduinoLineInput) :
    Option (List UInt8) × ArduinoLineInput :=
  if maxLen = 0 then (none, c) else c.readLoop maxLen stripCr c.input

def receive (arrival : List UInt8) (c : ArduinoLineInput) : ArduinoLineInput :=
  { c with input := c.input ++ arrival }

/-- The connection of the Linux client that has read the same. -/
def twin (c : ArduinoLineInput) : LinuxTcpClientConnection := ⟨c.input, c.line, c.lineSize⟩

theorem readLoop_twin (maxLen : Nat) (stripCr : Bool) (c : ArduinoLineInput)
    (bytes : List UInt8) :
    c.twin.readLoop maxLen stripCr bytes
      = ((c.readLoop maxLen stripCr bytes).1, (c.readLoop maxLen stripCr bytes).2.twin) := by
  induction bytes generalizing c with
  | nil => rfl
  | cons byte bytes ih =>
      unfold readLoop LinuxTcpClientConnection.readLoop
      by_cases hnewline : byte = 10
      · rw [if_pos hnewline, if_pos hnewline]
        rfl
      · rw [if_neg hnewline, if_neg hnewline]
        by_cases hfits : c.lineSize < 256
        · rw [dif_pos hfits, dif_pos (show c.twin.lineSize < 256 from hfits)]
          exact ih { c with line := c.line.set c.lineSize byte hfits, lineSize := c.lineSize + 1 }
        · rw [dif_neg hfits, dif_neg (show ¬c.twin.lineSize < 256 from hfits)]
          exact ih { c with lineSize := 0 }

theorem readLine_twin (maxLen : Nat) (stripCr : Bool) (c : ArduinoLineInput) :
    c.twin.readLine maxLen stripCr
      = ((c.readLine maxLen stripCr).1, (c.readLine maxLen stripCr).2.twin) := by
  unfold readLine LinuxTcpClientConnection.readLine
  split
  · rfl
  · exact readLoop_twin maxLen stripCr c c.input

end ArduinoLineInput

/-- What both connections keep of a line is what the reader does. -/
theorem copied_kept (maxLen : Nat) (stripCr : Bool) (line : List UInt8) :
    copied maxLen stripCr (LineProtocolReader.kept {} 256 line)
      = (LineProtocolReader.lineText { stripCr := stripCr } 256 line).take (maxLen - 1) ++ [0] :=
  rfl

/-- The lines that a `LineProtocolReader` with a buffer of 256 emits. -/
def readerLines (stripCr : Bool) (arrivals : List (List UInt8)) : List (List UInt8) :=
  (LineProtocolReader.pollAll
    (.fresh 256 { delimiter := 10, stripCr := stripCr, dropOverflow := true }) arrivals).2

theorem readerLines_eq (stripCr : Bool) (arrivals : List (List UInt8)) :
    readerLines stripCr arrivals
      = (arrivals.flatten.splitOn 10).dropLast.map
        (LineProtocolReader.lineText { stripCr := stripCr } 256) := by
  rw [readerLines, LineProtocolReader.pollAll_eq_poll]
  have hreads := LineProtocolReader.poll_pending arrivals.flatten
    (.fresh 256 { stripCr := stripCr }) [] (LineProtocolReader.fresh_pending 256 _)
  exact hreads.lines.trans (by rw [LineProtocolReader.segmentsFrom_nil_left]; rfl)

/-- **`read_line` returns the lines of the protocol reader**: on any stream, however it
arrives, the calls on a `LinuxTcpClientConnection` and on an
`ArduinoWiFiTcpConnection` until they return false leave in a buffer of `maxLen` the
lines that the reader emits, as many bytes of each as fit, and a NUL. -/
theorem read_line_follows_reader {maxLen : Nat} (hmax : 1 ≤ maxLen) (stripCr : Bool)
    (arrivals : List (List UInt8)) :
    readArrivals LinuxTcpClientConnection.receive
        (LinuxTcpClientConnection.readLine maxLen stripCr) {} arrivals
      = some ((readerLines stripCr arrivals).map fun line => line.take (maxLen - 1) ++ [0])
    ∧ readArrivals ArduinoLineInput.receive (ArduinoLineInput.readLine maxLen stripCr) {} arrivals
      = some ((readerLines stripCr arrivals).map fun line => line.take (maxLen - 1) ++ [0]) := by
  have hlines : readArrivals LinuxTcpClientConnection.receive
      (LinuxTcpClientConnection.readLine maxLen stripCr) {} arrivals
      = some ((readerLines stripCr arrivals).map fun line => line.take (maxLen - 1) ++ [0]) := by
    rw [client_lines hmax, readerLines_eq, List.map_map]
    refine congrArg some (List.map_congr_left ?_)
    intro line _
    rw [← kept_line, copied_kept]
    rfl
  have hreceive : ∀ arrival (c : ArduinoLineInput),
      LinuxTcpClientConnection.receive arrival c.twin = (ArduinoLineInput.receive arrival c).twin :=
    fun _ _ => rfl
  have htwin := readArrivals_twin hreceive (ArduinoLineInput.readLine_twin maxLen stripCr)
    arrivals {}
  exact ⟨hlines, htwin.symm.trans hlines⟩

/-- Two lines, the first in two arrivals and longer than the caller's buffer. -/
theorem read_line_follows_reader_run :
    readArrivals LinuxTcpClientConnection.receive (LinuxTcpClientConnection.readLine 4 true) {}
        [[97, 98], [99, 100, 13, 10, 101, 10]] = some [[97, 98, 99, 0], [101, 0]]
      ∧ readArrivals ArduinoLineInput.receive (ArduinoLineInput.readLine 4 true) {}
        [[97, 98], [99, 100, 13, 10, 101, 10]] = some [[97, 98, 99, 0], [101, 0]] :=
  read_line_follows_reader (show 1 ≤ 4 by omega) true [[97, 98], [99, 100, 13, 10, 101, 10]]

end AsyncEventLoop
