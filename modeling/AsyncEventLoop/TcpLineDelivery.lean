import AsyncEventLoop.ReaderDelivery
import AsyncEventLoop.TcpLineWriter
import AsyncEventLoop.TcpSlotOwnership

/-!
# Lines from the clients to the server

Any number of clients write lines with `tcp_write_line`; the network brings
each connection its client's bytes in order, in pieces of any size; a line
server on a `LinuxTcpServer` reads them, one callback after another, and calls
`on_line`. The steps of the three come in any order.

`held` are the bytes of a connection that the server has read and those that
wait in its bufferevent: nothing the server does changes them, only what
arrives (`callbackStep_held`). So what the reader of a connection has been
given is the beginning of what its client has written, and the lines are those
of the client, as long as no call of a client is cut short, no slot is bound
while its reader has text in hand, and no callback closes the server or leaves a
slot with a connection that is gone. A connection is known by its number here; as
no slot has the address of one that was destroyed, it makes no difference where
the next one is.
-/

namespace AsyncEventLoop

open Runs StreamReader

namespace LineServer

variable {N n : Nat}

/-! ## The world between two reads -/

/-- Nothing has been read and nothing has arrived, and there is no connection that was not
valid before. -/
structure Fades (w w' : TcpWorld) : Prop where
  input : w'.input = w.input
  valid : ∀ c, w'.server.isValid c = true → w.server.isValid c = true
  nextId : w'.nextId = w.nextId

theorem Fades.refl (w : TcpWorld) : Fades w w := ⟨rfl, fun _ h => h, rfl⟩

theorem Fades.trans {u v w : TcpWorld} (h : Fades u v) (h' : Fades v w) : Fades u w :=
  ⟨h'.input.trans h.input, fun c hc => h.valid c (h'.valid c hc), h'.nextId.trans h.nextId⟩

theorem close_fades (w : TcpWorld) (connection : Nat) :
    Fades w { w with server := w.server.closeConnection connection } :=
  ⟨rfl, fun _ hc => (LinuxTcpServer.closeConnection_isValid.mp hc).2, rfl⟩

theorem sweep_fades (w : TcpWorld) : Fades w { w with server := w.server.sweepClosed } := by
  refine ⟨rfl, fun c hc => ?_, rfl⟩
  obtain ⟨k, hk, hid⟩ := LinuxTcpServer.isValid_iff.mp hc
  exact LinuxTcpServer.isValid_iff.mpr ⟨k, (List.mem_filter.mp hk).1, hid⟩

theorem act_fades (w : TcpWorld) (a : AppAction) : Fades w (w.act a) := by
  cases a with
  | close connection => exact close_fades w connection
  | serverClose => exact ⟨rfl, nofun, rfl⟩
  | write connection len =>
      unfold TcpWorld.act
      dsimp only
      split <;> exact ⟨rfl, fun _ hc => hc, rfl⟩

theorem callback_fades (w : TcpWorld) : Fades w w.callback := by
  have hacts (actions : List AppAction) (v : TcpWorld) :
      Fades v (actions.foldl TcpWorld.act v) := by
    induction actions generalizing v with
    | nil => exact .refl v
    | cons a rest ih => exact (act_fades v a).trans (ih _)
  have hscript : Fades w { w with script := w.script.tail } := ⟨rfl, fun _ hc => hc, rfl⟩
  exact hscript.trans (hacts _ _)

/-! ## The server's operations -/

theorem call_fades (s : LineServer TcpWorld N n) (k : AppCall) :
    Fades s.world (s.call linuxEnv k).world :=
  callback_fades s.world

theorem Looks.fades {s t : LineServer TcpWorld N n} (h : Looks linuxEnv s t) :
    Fades s.world t.world := by
  induction h with
  | refl => exact .refl _
  | valid _ _ ih | inputSize _ _ ih | outputSize _ _ ih => exact ih
  | monitor _ _ _ ih => exact ih

theorem closeOnLimit_fades (s : LineServer TcpWorld N n) (connection : Nat) :
    Fades s.world (s.closeOnLimit linuxEnv connection).world := by
  have hself : Looks linuxEnv s s := .refl s
  have hvalid := (hself.andValid s.options.closeOnLimit connection).fades
  unfold closeOnLimit
  dsimp only
  split
  · exact hvalid.trans (close_fades _ connection)
  · exact hvalid

theorem limit_fades (s : LineServer TcpWorld N n) (i connection : Nat)
    (info : TcpBackpressureInfo) : Fades s.world (s.limit linuxEnv i connection info).world := by
  have hclosed := (call_fades s (.onBackpressure connection info)).trans
    (closeOnLimit_fades _ connection)
  unfold limit
  dsimp only
  split <;> exact hclosed

theorem checkBackpressure_fades (s : LineServer TcpWorld N n) (i : Nat) :
    Fades s.world (s.checkBackpressure linuxEnv i).world := by
  unfold checkBackpressure
  split
  · exact .refl _
  · rename_i connection _
    have hchecked := (check_looks linuxEnv (s.ask (linuxEnv.valid connection)).2 i connection).fades
    dsimp only
    split
    · exact .refl _
    · split
      · exact hchecked
      · exact hchecked.trans (limit_fades _ i connection _)

theorem checkAllBackpressure_fades (s : LineServer TcpWorld N n) :
    Fades s.world (s.checkAllBackpressure linuxEnv).world := by
  unfold checkAllBackpressure
  induction List.range n generalizing s with
  | nil => exact .refl _
  | cons i rest ih => exact (checkBackpressure_fades s i).trans (ih _)

theorem handleLine_fades (s : LineServer TcpWorld N n) (i : Nat) (line : List UInt8) :
    Fades s.world (s.handleLine linuxEnv i line).world := by
  unfold handleLine
  split
  · exact .refl _
  · dsimp only
    split
    · exact callback_fades s.world
    · exact .refl _

theorem consume_fades (s : LineServer TcpWorld N n) (i : Nat) (byte : UInt8) :
    Fades s.world (s.consume linuxEnv i byte).world := by
  unfold consume
  dsimp only
  split
  · exact handleLine_fades (s.putSlot i _) i _
  · exact .refl _

theorem consume_bytes (s : LineServer TcpWorld N n) (i : Nat) (byte : UInt8) (c : Nat) :
    bytesOf c (s.consume linuxEnv i byte).log = bytesOf c s.log := by
  unfold consume
  dsimp only
  split
  · unfold handleLine
    split
    · rfl
    · dsimp only
      split <;> rfl
  · rfl

theorem consume_connection (s : LineServer TcpWorld N n) (i : Nat) (byte : UInt8) (j : Nat) :
    ((s.consume linuxEnv i byte).slots j).connection = (s.slots j).connection := by
  have hput : ((s.putSlot i { s.slots i with
      reader := ((s.slots i).reader.readByte byte).1 }).slots j).connection
        = (s.slots j).connection := by
    by_cases hij : j = i
    · rw [hij, putSlot_self]
    · rw [putSlot_of_ne s hij]
  unfold consume
  dsimp only
  split
  · rw [(handleLine_input _ i _).2]
    exact hput
  · exact hput

theorem acquire_world (s : LineServer TcpWorld N n) (connection : Nat) :
    (s.acquire connection).2.world = s.world
      ∧ ∀ c, bytesOf c (s.acquire connection).2.log = bytesOf c s.log := by
  have hspec := acquire_spec s connection
  generalize s.acquire connection = r at hspec ⊢
  obtain ⟨slot, t⟩ := r
  cases hspec <;> exact ⟨rfl, fun _ => rfl⟩

/-! ## What the server holds of a connection -/

/-- The bytes that were read, and those that wait. -/
def held (s : LineServer TcpWorld N n) (c : Nat) : List UInt8 :=
  bytesOf c s.log ++ s.world.input c

theorem held_eq {s t : LineServer TcpWorld N n} {c : Nat}
    (hbytes : bytesOf c t.log = bytesOf c s.log) (hworld : Fades s.world t.world) :
    t.held c = s.held c := by
  rw [held, held, hbytes, hworld.input]

/-- What a `poll` of slot `i` on `connection` comes to. -/
structure Polled (connection : Nat) (s t : LineServer TcpWorld N n) : Prop where
  held : ∀ c, t.held c = s.held c
  valid : ∀ c, t.world.server.isValid c = true → s.world.server.isValid c = true
  drained : t.world.server.isValid connection = true → t.world.input connection = []
  nextId : t.world.nextId = s.world.nextId

theorem readable_linux {s : LineServer TcpWorld N n} {i connection : Nat}
    (hconnection : (s.slots i).connection = some connection) :
    (s.readable linuxEnv i).2.slots = s.slots ∧ (s.readable linuxEnv i).2.world = s.world
      ∧ (∀ c, bytesOf c (s.readable linuxEnv i).2.log = bytesOf c s.log)
      ∧ ((s.readable linuxEnv i).1 = true
        ↔ s.world.server.isValid connection = true ∧ s.world.input connection ≠ []) := by
  unfold readable
  rw [hconnection]
  by_cases hvalid : s.world.server.isValid connection
  · have hanswer : (s.ask (linuxEnv.valid connection)).1 = true := hvalid
    dsimp only
    rw [if_pos hanswer]
    refine ⟨rfl, rfl, fun _ => rfl, ?_⟩
    have hsize : ((s.ask (linuxEnv.valid connection)).2.ask (linuxEnv.inputSize connection)).1
        = (s.world.input connection).length := if_pos hvalid
    dsimp only
    rw [hsize, decide_eq_true_iff, gt_iff_lt, List.length_pos_iff]
    exact ⟨fun h => ⟨hvalid, h⟩, fun h => h.2⟩
  · have hanswer : ¬ (s.ask (linuxEnv.valid connection)).1 = true := hvalid
    dsimp only
    rw [if_neg hanswer]
    refine ⟨rfl, rfl, fun _ => rfl, ?_⟩
    exact ⟨fun h => (Bool.false_ne_true h).elim, fun h => absurd h.1 hvalid⟩

/-- A byte that waits is read. -/
theorem read_linux {s : LineServer TcpWorld N n} {i connection : Nat}
    (hconnection : (s.slots i).connection = some connection)
    (hvalid : s.world.server.isValid connection = true) {byte : UInt8} {rest : List UInt8}
    (hinput : s.world.input connection = byte :: rest) :
    (s.read linuxEnv i).1 = some byte
      ∧ (s.read linuxEnv i).2.slots = s.slots
      ∧ (s.read linuxEnv i).2.world.server = s.world.server
      ∧ (s.read linuxEnv i).2.world.nextId = s.world.nextId
      ∧ ∀ c, (s.read linuxEnv i).2.held c = s.held c := by
  have hread : linuxEnv.read connection s.world = (some byte, { s.world with
      input := Function.update s.world.input connection rest }) := by
    simp [linuxEnv, hvalid, hinput]
  have hserver : s.read linuxEnv i = (some byte, ({ s.consult with world := { s.world with
      input := Function.update s.world.input connection rest } } : LineServer TcpWorld N n).note
        (.read connection byte)) := by
    unfold read
    rw [hconnection]
    dsimp only [ask]
    rw [show s.consult.world = s.world from rfl, hread]
  rw [hserver]
  refine ⟨rfl, rfl, rfl, rfl, fun c => ?_⟩
  have hbytes : bytesOf c (.read connection byte :: s.consult.log)
      = if connection = c then bytesOf c s.consult.log ++ [byte] else bytesOf c s.consult.log :=
    bytesOf_read c connection byte _
  have hsame : bytesOf c s.consult.log = bytesOf c s.log := rfl
  show bytesOf c (.read connection byte :: s.consult.log)
    ++ Function.update s.world.input connection rest c = bytesOf c s.log ++ s.world.input c
  rw [hbytes, hsame]
  by_cases hc : connection = c
  · subst hc
    rw [if_pos rfl, Function.update_self, hinput, List.append_assoc, List.singleton_append]
  · rw [if_neg hc, Function.update_of_ne (Ne.symm hc)]

theorem poll_polled {i connection turns : Nat} {s t : LineServer TcpWorld N n}
    (hconnection : (s.slots i).connection = some connection)
    (hpoll : s.poll linuxEnv i turns = some t) : Polled connection s t := by
  induction turns generalizing s with
  | zero => cases hpoll
  | succ turns ih =>
      obtain ⟨hslots, hworld, hbytes, hready⟩ := readable_linux hconnection
      simp only [poll] at hpoll
      generalize s.readable linuxEnv i = ready at hslots hworld hbytes hready hpoll
      obtain ⟨flag, u⟩ := ready
      dsimp only at hslots hworld hbytes hready hpoll
      have hheld (c : Nat) : u.held c = s.held c := held_eq (hbytes c) (hworld ▸ .refl _)
      cases hflag : flag with
      | false =>
          rw [hflag] at hready hpoll
          obtain rfl := Option.some.inj hpoll
          refine ⟨hheld, fun c hc => hworld ▸ hc, fun hvalid => ?_, by rw [hworld]⟩
          rw [hworld] at hvalid ⊢
          by_contra hne
          exact absurd (hready.mpr ⟨hvalid, hne⟩) Bool.false_ne_true
      | true =>
          rw [hflag] at hready hpoll
          obtain ⟨hvalid, hne⟩ := hready.mp rfl
          obtain ⟨byte, rest, hinput⟩ := List.exists_cons_of_ne_nil hne
          rw [← hworld] at hvalid hinput
          obtain ⟨hread, hreadSlots, hserver, hreadNextId, hreadHeld⟩ :=
            read_linux (s := u) (by rw [hslots]; exact hconnection) hvalid hinput
          simp only [Bool.not_true, Bool.false_eq_true, if_false, hread] at hpoll
          have hconsumed : (((u.read linuxEnv i).2.consume linuxEnv i byte).slots i).connection
              = some connection := by
            rw [consume_connection, hreadSlots, hslots, hconnection]
          have hfades := consume_fades (u.read linuxEnv i).2 i byte
          obtain ⟨hrest, hvalids, hdrained, hnextId⟩ := ih hconsumed hpoll
          refine ⟨fun c => ?_, fun c hc => ?_, hdrained, ?_⟩
          · rw [hrest, held_eq (consume_bytes _ i byte c) hfades, hreadHeld, hheld]
          · have hbefore := hfades.valid c (hvalids c hc)
            rw [hserver, hworld] at hbefore
            exact hbefore
          · rw [hnextId, hfades.nextId, hreadNextId, hworld]

/-! ## Callbacks -/

theorem acquire_bound {s : LineServer TcpWorld N n} {connection i : Nat}
    (hslot : (s.acquire connection).1 = some i) :
    ((s.acquire connection).2.slots i).connection = some connection := by
  have hspec := acquire_spec s connection
  generalize s.acquire connection = r at hspec hslot ⊢
  obtain ⟨slot, t⟩ := r
  cases hspec with
  | found j hfind =>
      obtain rfl := Option.some.inj hslot
      exact find_some (s := s) hfind
  | bound j hfind hfree =>
      obtain rfl := Option.some.inj hslot
      exact congrArg LineSlot.connection (bind_self s.consult j connection)
  | full hfind hfree => cases hslot

theorem acquire_full {s : LineServer TcpWorld N n} {connection : Nat}
    (hslot : (s.acquire connection).1 = none) :
    (s.acquire connection).2.find connection = none := by
  have hspec := acquire_spec s connection
  generalize s.acquire connection = r at hspec hslot ⊢
  obtain ⟨slot, t⟩ := r
  cases hspec with
  | found j hfind => cases hslot
  | bound j hfind hfree => cases hslot
  | full hfind hfree => exact hfind

/-- Whatever is readable has been read, unless the connection has been closed or
has no slot. -/
theorem onData_held {connection turns : Nat} {s t : LineServer TcpWorld N n}
    (hdata : s.onData linuxEnv connection turns = some t) :
    (∀ c, t.held c = s.held c) ∧ t.world.nextId = s.world.nextId
      ∧ (t.world.server.isValid connection = true → (t.find connection).isSome = true →
        t.world.input connection = []) := by
  obtain ⟨hworld, hbytes⟩ := acquire_world s connection
  have hacquired (c : Nat) : (s.acquire connection).2.held c = s.held c :=
    held_eq (hbytes c) (hworld ▸ .refl _)
  unfold onData at hdata
  dsimp only at hdata
  cases hslot : (s.acquire connection).1 with
  | none =>
      rw [hslot] at hdata
      obtain rfl := Option.some.inj hdata
      have hfades := call_fades (s.acquire connection).2 (.onTooManyConnections connection)
      refine ⟨fun c => ?_, hfades.nextId.trans (by rw [hworld]), fun _ hfound => ?_⟩
      · rw [← hacquired c]
        exact held_eq rfl hfades
      · have hnone : ((s.acquire connection).2.call linuxEnv
            (.onTooManyConnections connection)).find connection = none := acquire_full hslot
        rw [hnone] at hfound
        cases hfound
  | some i =>
      rw [hslot] at hdata
      obtain ⟨u, hpoll, rfl⟩ := Option.map_eq_some_iff.mp hdata
      obtain ⟨hheld, -, hdrained, hnextId⟩ := poll_polled (acquire_bound hslot) hpoll
      have hfades := checkAllBackpressure_fades u
      have hquiet := checkAllBackpressure_quiet linuxEnv u
      refine ⟨fun c => ?_, ?_, fun hvalid _ => ?_⟩
      · rw [held_eq (hquiet.bytes c) hfades, hheld, hacquired]
      · rw [hfades.nextId, hnextId, hworld]
      · rw [hfades.input]
        exact hdrained (hfades.valid connection hvalid)

theorem release_held (s : LineServer TcpWorld N n) (connection c : Nat) :
    (s.release connection).held c = s.held c := by
  unfold release
  dsimp only
  split <;> rfl

theorem call_held (s : LineServer TcpWorld N n) {k : AppCall} (c : Nat) :
    (s.call linuxEnv k).held c = s.held c :=
  held_eq rfl (call_fades s k)

theorem onAccept_held (s : LineServer TcpWorld N n) (connection : Nat) (peer : TcpPeerInfo)
    (c : Nat) : (s.onAccept linuxEnv connection peer).held c = s.held c := by
  obtain ⟨hworld, hbytes⟩ := acquire_world s connection
  have hacquired : (s.acquire connection).2.held c = s.held c :=
    held_eq (hbytes c) (hworld ▸ .refl _)
  unfold onAccept
  dsimp only
  split <;> exact (call_held _ c).trans hacquired

theorem onWriteReady_held (s : LineServer TcpWorld N n) (connection c : Nat) :
    (s.onWriteReady linuxEnv connection).held c = s.held c := by
  unfold onWriteReady
  dsimp only
  split
  · rename_i i _
    exact held_eq ((checkBackpressure_quiet linuxEnv s.consult i).bytes c)
      (checkBackpressure_fades s.consult i)
  · rfl

end LineServer

/-- No callback of the application closes the server. -/
def TcpEvent.keepsServer : TcpEvent → Bool
  | .accept _ _ script | .readable _ _ _ script | .writable _ _ script | .failed _ _ script
  | .eof _ script => script.all (·.all fun
      | .serverClose => false
      | _ => true)

/-- The bytes that arrive at a connection before the callback. -/
def TcpEvent.arriving (c : Nat) : TcpEvent → List UInt8
  | .readable connection bytes _ _ => if connection = c then bytes else []
  | _ => []

namespace LineServer

variable {N n : Nat}

theorem receive_held (s : LineServer TcpWorld N n) (connection : Nat) (bytes : List UInt8)
    (c : Nat) : (s.receive connection bytes).held c
      = s.held c ++ if connection = c then bytes else [] := by
  show bytesOf c s.log
    ++ Function.update s.world.input connection (s.world.input connection ++ bytes) c = _
  by_cases hc : connection = c
  · subst hc
    rw [if_pos rfl, Function.update_self, held, List.append_assoc]
  · rw [if_neg hc, Function.update_of_ne (Ne.symm hc), List.append_nil, held]

/-- **What the server holds is what has arrived.** -/
theorem callbackStep_held {s t : LineServer TcpWorld N n} {e : TcpEvent}
    (hstep : s.callbackStep e = some t) (c : Nat) : t.held c = s.held c ++ e.arriving c := by
  cases e with
  | accept peer opened script =>
      obtain rfl := Option.some.inj hstep
      refine Eq.trans ?_ (List.append_nil (s.held c)).symm
      unfold acceptCallback
      dsimp only
      split
      · rfl
      · split
        · rfl
        · split
          · rfl
          · exact onAccept_held ((s.withScript script).onServer .sweepClosed).push _ peer c
  | readable connection bytes turns script =>
      obtain ⟨-, hmap⟩ := Option.ite_none_right_eq_some.mp hstep
      obtain ⟨u, hdata, rfl⟩ := Option.map_eq_some_iff.mp hmap
      exact ((onData_held hdata).1 c).trans (receive_held (s.withScript script) connection bytes c)
  | writable connection pending script =>
      obtain ⟨-, hsome⟩ := Option.ite_none_right_eq_some.mp hstep
      obtain rfl := Option.some.inj hsome
      refine Eq.trans ?_ (List.append_nil (s.held c)).symm
      exact onWriteReady_held ((s.withScript script).drain connection pending) connection c
  | failed connection errorCode script =>
      obtain ⟨-, hsome⟩ := Option.ite_none_right_eq_some.mp hstep
      obtain rfl := Option.some.inj hsome
      refine Eq.trans ?_ (List.append_nil (s.held c)).symm
      exact (release_held _ connection c).trans (call_held (s.withScript script) c)
  | eof connection script =>
      obtain ⟨-, hsome⟩ := Option.ite_none_right_eq_some.mp hstep
      obtain rfl := Option.some.inj hsome
      refine Eq.trans ?_ (List.append_nil (s.held c)).symm
      exact (release_held _ connection c).trans (call_held (s.withScript script) c)

theorem onAccept_nextId (s : LineServer TcpWorld N n) (connection : Nat) (peer : TcpPeerInfo) :
    (s.onAccept linuxEnv connection peer).world.nextId = s.world.nextId := by
  obtain ⟨hworld, -⟩ := acquire_world s connection
  rw [← hworld]
  unfold onAccept
  dsimp only
  split
  · exact (call_fades _ _).nextId
  · exact (call_fades (putSlot (s.acquire connection).2 _ _) _).nextId

theorem onWriteReady_nextId (s : LineServer TcpWorld N n) (connection : Nat) :
    (s.onWriteReady linuxEnv connection).world.nextId = s.world.nextId := by
  unfold onWriteReady
  dsimp only
  split
  · exact (checkBackpressure_fades s.consult _).nextId
  · rfl

theorem release_nextId (s : LineServer TcpWorld N n) (connection : Nat) :
    (s.release connection).world.nextId = s.world.nextId := by
  unfold release
  dsimp only
  split <;> rfl

/-- Connections are numbered as they come. -/
theorem callbackStep_nextId {s t : LineServer TcpWorld N n} {e : TcpEvent}
    (hstep : s.callbackStep e = some t) : s.world.nextId ≤ t.world.nextId := by
  cases e with
  | accept peer opened script =>
      obtain rfl := Option.some.inj hstep
      unfold acceptCallback
      dsimp only
      split
      · exact Nat.le_refl _
      · split
        · exact Nat.le_refl _
        · split
          · exact Nat.le_refl _
          · exact Nat.le_trans (Nat.le_succ _)
              (onAccept_nextId ((s.withScript script).onServer .sweepClosed).push _ peer).ge
  | readable connection bytes turns script =>
      obtain ⟨-, hmap⟩ := Option.ite_none_right_eq_some.mp hstep
      obtain ⟨u, hdata, rfl⟩ := Option.map_eq_some_iff.mp hmap
      exact (onData_held hdata).2.1.ge
  | writable connection pending script =>
      obtain ⟨-, hsome⟩ := Option.ite_none_right_eq_some.mp hstep
      obtain rfl := Option.some.inj hsome
      exact (onWriteReady_nextId ((s.withScript script).drain connection pending) connection).ge
  | failed connection errorCode script =>
      obtain ⟨-, hsome⟩ := Option.ite_none_right_eq_some.mp hstep
      obtain rfl := Option.some.inj hsome
      exact ((release_nextId _ connection).trans (call_fades (s.withScript script) _).nextId).ge
  | eof connection script =>
      obtain ⟨-, hsome⟩ := Option.ite_none_right_eq_some.mp hstep
      obtain rfl := Option.some.inj hsome
      exact ((release_nextId _ connection).trans (call_fades (s.withScript script) _).nextId).ge

/-- The lines of a connection that has had no session before. -/
theorem Isolated.linesOf_eq {s : LineServer TcpWorld N n} (h : s.Isolated fun _ => {}) (c : Nat) :
    linesOf c s.log = (LineProtocolReader.poll (.fresh N {}) (bytesOf c s.log)).2 := by
  simpa only [sessionLines, sessionBytes, List.drop_zero] using h.lines c

/-- A connection of which the server holds nothing has no past. -/
theorem Isolated.allPast_of_held {s : LineServer TcpWorld N n} {c : Nat}
    (h : s.Isolated fun _ => {}) (hheld : s.held c = []) : s.allPast c = {} := by
  obtain ⟨hbytes, -⟩ := List.append_eq_nil_iff.mp hheld
  rw [allPast, h.linesOf_eq, hbytes]
  rfl

/-- Behind a read callback nothing waits, as long as the connection is valid and
has a slot. -/
theorem readable_drained {s t : LineServer TcpWorld N n} {connection turns : Nat}
    {bytes : List UInt8} {script : List (List AppAction)}
    (hstep : s.callbackStep (.readable connection bytes turns script) = some t)
    (hvalid : t.world.server.isValid connection = true)
    (hslot : (t.find connection).isSome = true) : t.world.input connection = [] := by
  obtain ⟨-, hmap⟩ := Option.ite_none_right_eq_some.mp hstep
  obtain ⟨u, hdata, rfl⟩ := Option.map_eq_some_iff.mp hmap
  exact (onData_held hdata).2.2 ((sweep_fades u.world).valid connection hvalid) hslot

end LineServer

/-! ## The system -/

/-- Clients, what the network has brought of what each of them has written, and
the server. Connection `c` is that of client `c`. -/
structure LineTraffic (W : Type) (N n : Nat) where
  clients : Nat → WriterState W
  arrived : Nat → List UInt8 := fun _ => []
  server : LineServer TcpWorld N n

inductive LineTrafficEvent (W : Type) where
  | client (c : Nat) (call : WriterCall W)
  | server (e : TcpEvent)

namespace LineTraffic

variable {W : Type} {N n : Nat} (connection : TcpWriter W)

/-- The network loses nothing and changes no order: what arrives at a connection is
what its client wrote next. -/
def inOrder (t : LineTraffic W N n) : TcpEvent → Bool
  | .readable c bytes _ _ => decide (t.arrived c ++ bytes <+: (t.clients c).accepted)
  | _ => true

def step (t : LineTraffic W N n) : LineTrafficEvent W → Option (LineTraffic W N n)
  | .client c call => ((t.clients c).step connection call).map fun s =>
      { t with clients := Function.update t.clients c s }
  | .server e =>
      if t.inOrder e then
        (t.server.callbackStep e).map fun s =>
          { t with server := s, arrived := fun c => t.arrived c ++ e.arriving c }
      else none

/-- Lines without a newline in them, each accepted whole or not at all, slots that are bound
clean, and callbacks that close neither the server nor a connection whose slot stays bound. -/
def faithful (t : LineTraffic W N n) : LineTrafficEvent W → Bool
  | .client c call => (t.clients c).takesWhole connection call && match call with
      | .tcpWriteLine line => decide (10 ∉ line)
      | .outside _ => true
  | .server e => t.server.acceptsClean (fun _ => {}) e && e.keepsServer
      && (t.server.callbackStep e).all fun s => callbacksSafe s.log

/-- Clients that have written nothing, and a server that listens. -/
def start (worlds : Nat → W) (N n maxConnections : Nat) (options : TcpBackpressureOptions) :
    LineTraffic W N n where
  clients c := { world := worlds c }
  server := .listening N n maxConnections options

/-! ## What is on the way -/

structure Conserved (t : LineTraffic W N n) : Prop where
  isolated : t.server.Isolated fun _ => {}
  tied : t.server.Tied none
  unborn : ∀ c, t.server.world.nextId ≤ c → t.arrived c = []
  whole : ∀ c, (t.clients c).Whole
  held : ∀ c, t.server.held c = t.arrived c
  order : ∀ c, t.arrived c <+: (t.clients c).accepted

theorem start_conserved (worlds : Nat → W) (maxConnections : Nat)
    (options : TcpBackpressureOptions) : Conserved (start worlds N n maxConnections options) where
  isolated := LineServer.isolated_fresh N n options _
  tied := LineServer.listening_tied N n maxConnections options
  unborn _ _ := rfl
  whole _ := ⟨List.forall_mem_nil _, rfl⟩
  held _ := rfl
  order _ := List.nil_prefix

/-- What a client has in its stream stays there. -/
theorem writer_accepted {s s' : WriterState W} {call : WriterCall W}
    (hstep : s.step connection call = some s') : s.accepted <+: s'.accepted := by
  cases call with
  | outside world =>
      obtain rfl := Option.some.inj hstep
      exact List.prefix_refl _
  | tcpWriteLine line =>
      obtain ⟨houtcome, -⟩ := WriterState.tcpWriteLine_spec connection s line
      simp only [WriterState.step] at hstep
      generalize s.tcpWriteLine connection line = r at houtcome hstep
      generalize s.takesWhole connection (.tcpWriteLine line) = whole at houtcome
      obtain ⟨returned, u⟩ := r
      obtain rfl := Option.some.inj hstep
      have hkept : (if returned then { u with written := u.written ++ [line] } else u).accepted
          = u.accepted := by
        split <;> rfl
      dsimp only at houtcome ⊢
      rw [hkept]
      cases houtcome with
      | written haccepted => rw [haccepted]; exact List.prefix_append _ _
      | refused haccepted => rw [haccepted]
      | cut text _ _ haccepted => rw [haccepted]; exact List.prefix_append _ _

theorem Conserved.isolated_callback {t : LineTraffic W N n} (h : Conserved t) {e : TcpEvent}
    {s : LineServer TcpWorld N n} (hclean : t.server.acceptsClean (fun _ => {}) e = true)
    (hs : t.server.callbackStep e = some s) : s.Isolated fun _ => {} := by
  obtain ⟨es, past, hrun, hpast⟩ := LineServer.callbackStep_run hclean hs
  have hisolated : s.Isolated past := by
    refine run_invariant (I := fun v => v.server.Isolated v.past) ?_ h.isolated hrun
    intro v event v' hv hstep
    obtain ⟨hclean, hstep⟩ := restrict_eq_some.mp hstep
    exact SessionServer.step_isolated linuxEnv LineServer.linuxEnv_readLeavesValid hv hclean hstep
  have hnone : past = fun _ => {} := by
    rcases hpast with rfl | rfl
    · rfl
    · -- nothing has arrived for the number that the next connection gets
      have hheld : t.server.held t.server.world.nextId = [] := by
        rw [h.held, h.unborn _ (Nat.le_refl _)]
      rw [h.isolated.allPast_of_held hheld]
      exact Function.update_eq_self _ _
  exact hnone ▸ hisolated

/-- What arrives is for a connection that has been accepted. -/
theorem Conserved.unborn_callback {t : LineTraffic W N n} (h : Conserved t) {e : TcpEvent}
    {s : LineServer TcpWorld N n} (hs : t.server.callbackStep e = some s) {c : Nat}
    (hc : s.world.nextId ≤ c) : t.arrived c ++ e.arriving c = [] := by
  rw [h.unborn c (Nat.le_trans (LineServer.callbackStep_nextId hs) hc), List.nil_append]
  cases e with
  | readable connection bytes turns script =>
      obtain ⟨hvalid, -⟩ := Option.ite_none_right_eq_some.mp hs
      have hold : connection < t.server.world.nextId :=
        h.tied.server.old connection (LinuxTcpServer.owned_of_isValid hvalid)
      have hne : connection ≠ c :=
        Nat.ne_of_lt (Nat.lt_of_lt_of_le hold
          (Nat.le_trans (LineServer.callbackStep_nextId hs) hc))
      exact if_neg hne
  | _ => rfl

/-- **The step.** -/
theorem Conserved.step {t u : LineTraffic W N n} {e : LineTrafficEvent W} (h : Conserved t)
    (hfaithful : t.faithful connection e = true) (hstep : t.step connection e = some u) :
    Conserved u := by
  cases e with
  | client c call =>
      obtain ⟨s, hs, rfl⟩ := Option.map_eq_some_iff.mp hstep
      obtain ⟨hwhole, hline⟩ := Bool.and_eq_true_iff.mp hfaithful
      have hwellFormed : WriterState.WellFormed call := by
        cases call with
        | tcpWriteLine line =>
            have hnone : 10 ∉ line := of_decide_eq_true hline
            exact hnone
        | outside world => trivial
      have hkept : s.Whole := by
        rcases WriterState.step_whole connection (h.whole c) hwellFormed hs with ⟨-, hkept⟩ | hcut
        · exact hkept
        · rw [hwhole] at hcut
          cases hcut.1
      refine ⟨h.isolated, h.tied, h.unborn, fun d => ?_, h.held, fun d => ?_⟩
      · by_cases hd : d = c
        · subst hd
          simpa only [Function.update_self] using hkept
        · simpa only [Function.update_of_ne hd] using h.whole d
      · by_cases hd : d = c
        · subst hd
          simpa only [Function.update_self] using
            (h.order d).trans (writer_accepted connection hs)
        · simpa only [Function.update_of_ne hd] using h.order d
  | server e =>
      obtain ⟨hordered, hmap⟩ := Option.ite_none_right_eq_some.mp hstep
      obtain ⟨s, hs, rfl⟩ := Option.map_eq_some_iff.mp hmap
      obtain ⟨hfaithful, hall⟩ := Bool.and_eq_true_iff.mp hfaithful
      obtain ⟨hclean, -⟩ := Bool.and_eq_true_iff.mp hfaithful
      have hsafe : callbacksSafe s.log = true := by rwa [hs] at hall
      have htied : s.Tied none := LineServer.callbackStep_holds (fun _ => h.tied) hs hsafe
      refine ⟨h.isolated_callback hclean hs, htied, fun c => h.unborn_callback hs, h.whole,
        fun c => ?_, fun c => ?_⟩
      · rw [LineServer.callbackStep_held hs c, h.held c]
      · cases e with
        | readable d bytes turns script =>
            show t.arrived c ++ (if d = c then bytes else []) <+: _
            by_cases hd : d = c
            · subst hd
              rw [if_pos rfl]
              exact of_decide_eq_true hordered
            · rw [if_neg hd, List.append_nil]
              exact h.order c
        | _ =>
            show t.arrived c ++ [] <+: _
            rw [List.append_nil]
            exact h.order c

/-! ## What is delivered -/

open LineProtocolReader in
theorem Conserved.lines {t : LineTraffic W N n} (h : Conserved t) (c : Nat) :
    linesOf c t.server.log <+: (t.clients c).written.map (lineText {} N)
      ∧ (t.arrived c = (t.clients c).accepted → t.server.world.input c = [] →
        linesOf c t.server.log = (t.clients c).written.map (lineText {} N)) := by
  have hcodec := lines_codec N {}
  have hfresh : (fresh N {}).options = {} ∧ Pending (fresh N {}) [] := ⟨rfl, fresh_pending N {}⟩
  have hwritten : (t.clients c).accepted = (t.clients c).written.flatMap (· ++ [10]) := by
    rw [(h.whole c).accepted, WriterState.framing, List.flatMap_def]
  have hread : bytesOf c t.server.log <+: (t.clients c).accepted := by
    refine List.IsPrefix.trans ?_ (h.order c)
    rw [← h.held c, LineServer.held]
    exact List.prefix_append _ _
  rw [h.isolated.linesOf_eq c, poll_eq_feed, List.map_eq_flatMap]
  refine ⟨hcodec.arrived hfresh (h.whole c).lines (hwritten ▸ hread), fun hall hnone => ?_⟩
  have hbytes : bytesOf c t.server.log = (t.clients c).written.flatMap (· ++ [10]) := by
    rw [← hwritten, ← hall, ← h.held c, LineServer.held, hnone, List.append_nil]
  rw [hbytes]
  exact (hcodec.messages hfresh (h.whole c).lines).2

/-- **Every line arrives at `on_line`, in order, once, and at no other connection**,
whatever the order of the clients' calls, of what the network brings and of the
server's callbacks. At every moment the lines of a connection are the first of
those its client has written; a callback that brings the last of them leaves none
out, as long as the connection is valid and has a slot. Lines that fit the
reader's buffer and do not end in a carriage return are delivered as they were
written. -/
theorem lines_reach_server (worlds : Nat → W) (maxConnections : Nat)
    (options : TcpBackpressureOptions) {t : LineTraffic W N n} {es : List (LineTrafficEvent W)}
    (hrun : run (restrict (faithful connection) (step connection))
      (start worlds N n maxConnections options) es = some t) (c : Nat) :
    linesOf c t.server.log
        <+: (t.clients c).written.map (LineProtocolReader.lineText {} N)
      ∧ (∀ {bytes turns script u}, restrict (faithful connection) (step connection) t
          (.server (.readable c bytes turns script)) = some u →
        u.arrived c = (u.clients c).accepted → u.server.world.server.isValid c = true →
        (u.server.find c).isSome = true →
        linesOf c u.server.log = (u.clients c).written.map (LineProtocolReader.lineText {} N))
      ∧ ((t.clients c).written.map (LineProtocolReader.lineText {} N) = (t.clients c).written
        ↔ ∀ line ∈ (t.clients c).written, LineProtocolReader.Intact {} N line) := by
  have hkept : ∀ (s : LineTraffic W N n) e s', Conserved s →
      restrict (faithful connection) (step connection) s e = some s' → Conserved s' := by
    intro s e s' hs hstep
    obtain ⟨hfaithful, hstep⟩ := restrict_eq_some.mp hstep
    exact hs.step connection hfaithful hstep
  have hconserved : Conserved t :=
    run_invariant hkept (start_conserved worlds maxConnections options) hrun
  refine ⟨(hconserved.lines c).1, ?_, LineProtocolReader.map_lineText_eq_iff {} N _⟩
  intro bytes turns script u hlast hall hvalid hslot
  refine ((hkept _ _ _ hconserved hlast).lines c).2 hall ?_
  obtain ⟨-, hstep⟩ := restrict_eq_some.mp hlast
  obtain ⟨-, hmap⟩ := Option.ite_none_right_eq_some.mp hstep
  obtain ⟨s, hs, rfl⟩ := Option.map_eq_some_iff.mp hmap
  exact LineServer.readable_drained hs hvalid hslot

/-- Two clients, whose bytes arrive one behind the other's and in pieces. -/
theorem lines_reach_server_run : ∃ t : LineTraffic Nat 8 2,
    run (restrict (faithful WriterState.bounded) (step WriterState.bounded))
        (start (fun _ => 16) 8 2 2 {})
        [.server (.accept {} true []), .server (.accept {} true []),
          .client 0 (.tcpWriteLine [104, 105]), .client 1 (.tcpWriteLine [121, 111]),
          .server (.readable 1 [121] 9 []), .server (.readable 0 [104, 105, 10] 9 []),
          .client 0 (.tcpWriteLine [33]), .server (.readable 1 [111, 10] 9 [])] = some t
      ∧ linesOf 0 t.server.log = [[104, 105]] ∧ (t.clients 0).written = [[104, 105], [33]]
      ∧ linesOf 0 t.server.log
        <+: (t.clients 0).written.map (LineProtocolReader.lineText {} 8) := by
  have hrun : run (restrict (faithful WriterState.bounded) (step WriterState.bounded))
      (start (fun _ => 16) 8 2 2 {} : LineTraffic Nat 8 2)
      [.server (.accept {} true []), .server (.accept {} true []),
        .client 0 (.tcpWriteLine [104, 105]), .client 1 (.tcpWriteLine [121, 111]),
        .server (.readable 1 [121] 9 []), .server (.readable 0 [104, 105, 10] 9 []),
        .client 0 (.tcpWriteLine [33]), .server (.readable 1 [111, 10] 9 [])] = some _ := rfl
  exact ⟨_, hrun, rfl, rfl, (lines_reach_server WriterState.bounded _ 2 {} hrun 0).1⟩

end LineTraffic

end AsyncEventLoop
