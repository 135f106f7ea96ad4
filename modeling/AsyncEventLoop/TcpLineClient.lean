import AsyncEventLoop.TcpLineIsolation

/-!
# The TCP line client

`TcpLineClientHandler` has one stream, which each `on_connect` binds to the
connection of a new session, and one line reader for all of them. What was
read and which lines were delivered is kept for each session, the current one
first.

As for the server's slots, the lines of a session are those of a fresh reader
as long as the stream is bound only while the reader has no text in hand.
-/

namespace AsyncEventLoop

open Runs

/-- The calls of `ITcpLineClientHandler`. -/
inductive ClientCall where
  | onConnect (connection : Nat) (peer : TcpPeerInfo)
  | onLine (connection : Nat) (line : List UInt8)
  | onClose (connection : Nat)
  | onError (errorCode : Int)

/-- The connections, and the application. `read` is a read of one byte, with none
for a result of 0 or -1. -/
structure LineClientEnv (W : Type) where
  valid : Nat → W → Bool × W
  inputSize : Nat → W → Nat × W
  read : Nat → W → Option UInt8 × W
  app : ClientCall → W → W

structure ClientSession where
  bytes : List UInt8 := []
  lines : List (List UInt8) := []

/-- `TcpLineClientHandler`, with the world it runs in; `connection` is that of the
stream. -/
structure LineClient (W : Type) (BufferSize : Nat) where
  connection : Option Nat := none
  reader : LineProtocolReader BufferSize
  world : W
  sessions : List ClientSession := []

/-- The client's events. `turns` is as many turns as the reader's loop may take;
`outside` is what goes on between the events. -/
inductive LineClientEvent (W : Type) where
  | onConnect (connection : Nat) (peer : TcpPeerInfo)
  | onData (turns : Nat)
  | onClose (connection : Nat)
  | onError (errorCode : Int)
  | outside (world : W)

namespace LineClient

variable {W : Type} {N : Nat}

def fresh (N : Nat) (world : W) : LineClient W N where
  reader := .fresh N {}
  world := world

def ask {α : Type} (call : W → α × W) (s : LineClient W N) : α × LineClient W N :=
  let r := call s.world
  (r.1, { s with world := r.2 })

def inSession (s : LineClient W N) (f : ClientSession → ClientSession) : LineClient W N :=
  { s with sessions := s.sessions.modifyHead f }

variable (env : LineClientEnv W)

def call (s : LineClient W N) (k : ClientCall) : LineClient W N :=
  { s with world := env.app k s.world }

def handleLine (s : LineClient W N) (line : List UInt8) : LineClient W N :=
  match s.connection with
  | none => s
  | some connection =>
      let valid := s.ask (env.valid connection)
      if valid.1 then
        (valid.2.inSession fun session => { session with lines := session.lines ++ [line] }).call
          env (.onLine connection line)
      else valid.2

/-- `readable` of the stream. -/
def readable (s : LineClient W N) : Bool × LineClient W N :=
  match s.connection with
  | none => (false, s)
  | some connection =>
      let valid := s.ask (env.valid connection)
      if valid.1 then
        let size := valid.2.ask (env.inputSize connection)
        (decide (size.1 > 0), size.2)
      else (false, valid.2)

/-- `read` of the stream. -/
def read (s : LineClient W N) : Option UInt8 × LineClient W N :=
  match s.connection with
  | none => (none, s)
  | some connection =>
      let r := s.ask (env.read connection)
      (r.1, match r.1 with
        | some byte =>
            r.2.inSession fun session => { session with bytes := session.bytes ++ [byte] }
        | none => r.2)

/-- The reader takes one byte. -/
def consume (s : LineClient W N) (byte : UInt8) : LineClient W N :=
  let step := s.reader.readByte byte
  let s := { s with reader := step.1 }
  match step.2 with
  | some line => s.handleLine env line
  | none => s

/-- `poll` of the reader. -/
def poll : (turns : Nat) → LineClient W N → Option (LineClient W N)
  | 0, _ => none
  | turns + 1, s =>
      let ready := s.readable env
      if !ready.1 then some ready.2
      else
        let r := ready.2.read env
        match r.1 with
        | none => some r.2
        | some byte => poll turns (r.2.consume env byte)

def step (s : LineClient W N) : LineClientEvent W → Option (LineClient W N)
  | .onConnect connection peer =>
      some ({ s with connection := some connection, sessions := {} :: s.sessions }.call env
        (.onConnect connection peer))
  | .onData turns => s.poll env turns
  | .onClose connection =>
      some { s.call env (.onClose connection) with connection := none }
  | .onError errorCode =>
      some { s.call env (.onError errorCode) with connection := none }
  | .outside world => some { s with world := world }

/-- The stream is bound while the reader has no text in hand. -/
def bindsClean (s : LineClient W N) : LineClientEvent W → Bool
  | .onConnect _ _ => decide (s.reader.size = 0)
  | _ => true

end LineClient

/-- A connection from which a byte has just been read is valid. -/
def LineClientEnv.ReadLeavesValid {W : Type} (env : LineClientEnv W) : Prop :=
  ∀ connection world byte, (env.read connection world).1 = some byte →
    (env.valid connection (env.read connection world).2).1 = true

/-- What a fresh reader emits on the bytes of the session. -/
def ClientSession.Isolated (N : Nat) (session : ClientSession) : Prop :=
  session.lines = (LineProtocolReader.poll (.fresh N {}) session.bytes).2

namespace LineClient

variable {W : Type} {N : Nat} (env : LineClientEnv W)

/-! ## The invariant -/

structure Isolated (s : LineClient W N) : Prop where
  options : s.reader.options = {}
  bound : s.connection.isSome → s.sessions ≠ []
  reader : ∀ session ∈ s.sessions.head?, LineProtocolReader.Alike s.reader
    (LineProtocolReader.poll (.fresh N {}) session.bytes).1
  lines : ∀ session ∈ s.sessions, session.Isolated N

/-- Only the world changes. -/
theorem Isolated.outside {s : LineClient W N} (h : Isolated s) (world : W) :
    Isolated { s with world := world } :=
  ⟨h.options, h.bound, h.reader, h.lines⟩

theorem readable_isolated {s : LineClient W N} (h : Isolated s) :
    Isolated (s.readable env).2 := by
  unfold readable
  split
  · exact h
  · dsimp only
    split
    · exact (h.outside _).outside _
    · exact h.outside _

/-- A byte is read in the current session, and the line that it completes, if any,
is delivered. -/
theorem Isolated.turn {s : LineClient W N} (h : Isolated s) {session : ClientSession}
    {rest : List ClientSession} (hsessions : s.sessions = session :: rest) (byte : UInt8)
    (world : W) :
    Isolated { s with
      reader := (s.reader.readByte byte).1
      world := world
      sessions :=
        { bytes := session.bytes ++ [byte]
          lines := session.lines ++ (s.reader.readByte byte).2.toList } :: rest } := by
  obtain ⟨hline, halike⟩ :=
    (h.reader session (by rw [hsessions]; rfl)).readByte byte
  have hlines := h.lines session (by rw [hsessions]; exact List.mem_cons_self)
  have hpoll := LineProtocolReader.poll_snoc (.fresh N {}) session.bytes byte
  refine ⟨?_, fun _ => List.cons_ne_nil _ _, ?_,
    List.forall_mem_cons.mpr ⟨?_, ?_⟩⟩
  · rw [← h.options]
    exact LineProtocolReader.consume_options _ byte
  · intro current hcurrent
    obtain rfl := Option.some.inj hcurrent
    rw [hpoll]
    exact halike
  · rw [ClientSession.Isolated, hpoll, hlines, hline]
  · intro other hother
    exact h.lines other (by rw [hsessions]; exact List.mem_cons_of_mem _ hother)

theorem consume_isolated (henv : env.ReadLeavesValid) {s : LineClient W N} (h : Isolated s)
    {byte : UInt8} (hread : (s.read env).1 = some byte) :
    Isolated ((s.read env).2.consume env byte) := by
  unfold read at hread ⊢
  cases hconnection : s.connection with
  | none =>
      rw [hconnection] at hread
      cases hread
  | some connection =>
      rw [hconnection] at hread
      dsimp only at hread ⊢
      rw [hread]
      have hne := h.bound (by rw [hconnection]; rfl)
      obtain ⟨session, rest, hsessions⟩ := List.exists_cons_of_ne_nil hne
      have hturn := h.turn hsessions byte
      have hvalid := henv connection s.world byte hread
      unfold consume
      dsimp only [inSession, ask]
      rw [hsessions]
      cases hline : (s.reader.readByte byte).2 with
      | none =>
          rw [hline, Option.toList_none, List.append_nil] at hturn
          exact hturn _
      | some line =>
          rw [hline, hconnection, Option.toList_some] at hturn
          dsimp only [handleLine, ask]
          rw [hconnection]
          dsimp only
          rw [if_pos hvalid]
          exact hturn _

theorem read_isolated {s : LineClient W N} (h : Isolated s) (hread : (s.read env).1 = none) :
    Isolated (s.read env).2 := by
  unfold read at hread ⊢
  cases hconnection : s.connection with
  | none => exact h
  | some connection =>
      rw [hconnection] at hread
      dsimp only at hread ⊢
      rw [hread]
      exact h.outside _

theorem poll_isolated (henv : env.ReadLeavesValid) {turns : Nat} {s t : LineClient W N}
    (h : Isolated s) (hpoll : s.poll env turns = some t) : Isolated t := by
  induction turns generalizing s with
  | zero => cases hpoll
  | succ turns ih =>
      have hready := readable_isolated env h
      simp only [poll] at hpoll
      split at hpoll
      · exact Option.some.inj hpoll ▸ hready
      · split at hpoll
        · rename_i hnone
          exact Option.some.inj hpoll ▸ read_isolated env hready hnone
        · rename_i byte hread
          exact ih (consume_isolated env henv hready hread) hpoll

/-! ## Runs -/

/-- **The step lemma.** -/
theorem step_isolated (henv : env.ReadLeavesValid) {s t : LineClient W N}
    {e : LineClientEvent W} (h : Isolated s) (hclean : s.bindsClean e = true)
    (hstep : s.step env e = some t) : Isolated t := by
  cases e with
  | onConnect connection peer =>
      obtain rfl := Option.some.inj hstep
      refine ⟨h.options, fun _ => List.cons_ne_nil _ _, ?_,
        List.forall_mem_cons.mpr ⟨rfl, h.lines⟩⟩
      intro session hsession
      obtain rfl := Option.some.inj hsession
      exact LineProtocolReader.alike_fresh h.options (of_decide_eq_true hclean)
  | onData turns => exact poll_isolated env henv h hstep
  | onClose connection =>
      obtain rfl := Option.some.inj hstep
      exact ⟨h.options, nofun, h.reader, h.lines⟩
  | onError errorCode =>
      obtain rfl := Option.some.inj hstep
      exact ⟨h.options, nofun, h.reader, h.lines⟩
  | outside world => exact Option.some.inj hstep ▸ h.outside world

theorem isolated_fresh (N : Nat) (world : W) : Isolated (fresh N world) :=
  ⟨rfl, nofun, nofun, List.forall_mem_nil _⟩

/-- **Sessions are isolated**: in every run in which the stream is bound clean, the
lines of each session are those of a fresh reader on the bytes of that session. -/
theorem sessions_isolated (henv : env.ReadLeavesValid) {world : W} {s : LineClient W N}
    {es : List (LineClientEvent W)}
    (hrun : run (restrict bindsClean (step env)) (fresh N world) es = some s) :
    ∀ session ∈ s.sessions, session.Isolated N := by
  have hisolated : Isolated s := by
    refine run_invariant ?_ (isolated_fresh N world) hrun
    intro s e t h hs
    obtain ⟨hclean, hstep⟩ := restrict_eq_some.mp hs
    exact step_isolated env henv h hclean hstep
  exact hisolated.lines

/-- A connection that is a queue of bytes, and a handler that does nothing. -/
def pipe : LineClientEnv (List UInt8) where
  valid _ w := (true, w)
  inputSize _ w := (w.length, w)
  read _ w := (w.head?, w.tail)
  app _ w := w

/-- Two sessions, the first of which ends behind a whole line. -/
theorem sessions_isolated_run : ∃ s : LineClient (List UInt8) 8,
    run (restrict bindsClean (step pipe)) (fresh 8 [])
        [.onConnect 0 {}, .outside [97, 98, 10], .onData 4, .onClose 0, .onConnect 0 {},
          .outside [120, 10], .onData 4] = some s
      ∧ s.sessions.map ClientSession.lines = [[[120]], [[97, 98]]]
      ∧ ∀ session ∈ s.sessions, session.Isolated 8 := by
  have hrun : run (restrict bindsClean (step pipe)) (fresh 8 [] : LineClient (List UInt8) 8)
      [.onConnect 0 {}, .outside [97, 98, 10], .onData 4, .onClose 0, .onConnect 0 {},
        .outside [120, 10], .onData 4] = some _ := rfl
  exact ⟨_, hrun, rfl, sessions_isolated pipe (fun _ _ _ _ => rfl) hrun⟩

/-- Without the condition: the first session ends in the middle of a line, and
what was read of it is delivered in the first line of the second. -/
theorem unfinished_line_leaks : ∃ s : LineClient (List UInt8) 8,
    run (step pipe) (fresh 8 [])
        [.onConnect 0 {}, .outside [97, 98], .onData 4, .onClose 0, .onConnect 0 {},
          .outside [120, 10], .onData 4] = some s
      ∧ s.sessions.head? = some { bytes := [120, 10], lines := [[97, 98, 120]] }
      ∧ ¬∀ session ∈ s.sessions, session.Isolated 8 := by
  refine ⟨_, rfl, rfl, ?_⟩
  intro h
  have hlines : [[97, 98, 120]] = [[(120 : UInt8)]] := h _ List.mem_cons_self
  simp at hlines

end LineClient

end AsyncEventLoop
