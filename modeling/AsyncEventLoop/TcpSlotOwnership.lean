import Mathlib.Data.List.Perm.Basic
import AsyncEventLoop.LinuxTcpServer

/-!
# The slots' connections and their owner

The line server keeps a pointer to a connection in its slot; the
`LinuxTcpServer` destroys a connection at the end of the callback in which it
was closed, and all of them in `close`. Neither tells the other. `Tied` says
how the two tables go together: what is bound is owned, and of the
connections that were admitted those are bound that are valid.

It is kept by every callback as long as the application's are `safe`: a
connection that is bound is closed only by a callback behind which the line
server lets go of it, and the server is closed only if no slot is bound. In
the middle of such a callback the connection may be bound and not valid, so
`Tied` has the one that is `leaving` as a parameter.
-/

namespace AsyncEventLoop

open Runs

/-! ## Safe callbacks -/

/-- The connection whose slot is given up behind the call, if it is not valid
by then. -/
def AppCall.leaving : AppCall → Option Nat
  | .onClose connection => some connection
  | .onError connection _ => some connection
  | .onBackpressure connection _ => some connection
  | _ => none

def AppAction.safe (k : AppCall) (bound : List Nat) : AppAction → Bool
  | .close connection => decide (k.leaving = some connection ∨ connection ∉ bound)
  | .serverClose => bound.isEmpty
  | .write _ _ => true

def callbackSafe (k : AppCall) (bound : List Nat) (w : TcpWorld) : Bool :=
  (w.script.headD []).all (AppAction.safe k bound)

def callbacksSafe (log : List (ServerNote TcpWorld)) : Bool :=
  log.all fun
    | .called k bound world => callbackSafe k bound world
    | _ => true

/-- The connections that were given a slot. -/
def admittedOf (log : List (ServerNote TcpWorld)) : List Nat :=
  log.filterMap fun
    | .admitted connection => some connection
    | _ => none

/-! ## The server's table -/

namespace LinuxTcpServer

structure WellFormed (s : LinuxTcpServer) (nextId : Nat) : Prop where
  ids : s.owned.Nodup
  old : ∀ c ∈ s.owned, c < nextId
  marked : ∀ k ∈ s.connections, k.removeRequested = !k.bev

theorem mem_owned {s : LinuxTcpServer} {c : Nat} :
    c ∈ s.owned ↔ ∃ k ∈ s.connections, k.id = c := by
  simp [owned]

theorem isValid_iff {s : LinuxTcpServer} {c : Nat} :
    s.isValid c = true ↔ ∃ k ∈ s.connections, k.id = c ∧ k.bev = true := by
  simp [isValid]

theorem owned_of_isValid {s : LinuxTcpServer} {c : Nat} (h : s.isValid c = true) :
    c ∈ s.owned := by
  obtain ⟨k, hk, hid, -⟩ := isValid_iff.mp h
  exact mem_owned.mpr ⟨k, hk, hid⟩

theorem closeConnection_owned (s : LinuxTcpServer) (c : Nat) :
    (s.closeConnection c).owned = s.owned := by
  simp only [owned, closeConnection, List.map_map]
  refine List.map_congr_left ?_
  intro k _
  rw [Function.comp_apply]
  split <;> rfl

theorem closeConnection_isValid {s : LinuxTcpServer} {c d : Nat} :
    (s.closeConnection c).isValid d = true ↔ d ≠ c ∧ s.isValid d = true := by
  simp only [isValid_iff, closeConnection, List.mem_map]
  constructor
  · rintro ⟨k', ⟨k, hk, rfl⟩, hid, hbev⟩
    by_cases hc : k.id = c
    · rw [if_pos hc] at hbev
      cases hbev
    · rw [if_neg hc] at hid hbev
      exact ⟨hid ▸ hc, k, hk, hid, hbev⟩
  · rintro ⟨hne, k, hk, hid, hbev⟩
    have hc : k.id ≠ c := hid ▸ hne
    exact ⟨k, ⟨k, hk, if_neg hc⟩, hid, hbev⟩

theorem WellFormed.closeConnection {s : LinuxTcpServer} {nextId : Nat} (h : s.WellFormed nextId)
    (c : Nat) : (s.closeConnection c).WellFormed nextId := by
  refine ⟨closeConnection_owned s c ▸ h.ids, closeConnection_owned s c ▸ h.old, ?_⟩
  simp only [LinuxTcpServer.closeConnection, List.mem_map]
  rintro k' ⟨k, hk, rfl⟩
  split
  · rfl
  · exact h.marked k hk

theorem wellFormed_close (s : LinuxTcpServer) (nextId : Nat) : s.close.WellFormed nextId :=
  ⟨List.nodup_nil, List.forall_mem_nil _, List.forall_mem_nil _⟩

theorem WellFormed.sweepClosed_isValid {s : LinuxTcpServer} {nextId : Nat}
    (h : s.WellFormed nextId) {c : Nat} : s.sweepClosed.isValid c = true ↔ s.isValid c = true := by
  simp only [isValid_iff, sweepClosed, List.mem_filter]
  constructor
  · rintro ⟨k, ⟨hk, -⟩, hid⟩
    exact ⟨k, hk, hid⟩
  · rintro ⟨k, hk, hid, hbev⟩
    exact ⟨k, ⟨hk, by rw [h.marked k hk, hbev]; rfl⟩, hid, hbev⟩

theorem WellFormed.sweepClosed {s : LinuxTcpServer} {nextId : Nat} (h : s.WellFormed nextId) :
    s.sweepClosed.WellFormed nextId := by
  have hsub : s.sweepClosed.owned.Sublist s.owned := List.filter_sublist.map _
  exact ⟨h.ids.sublist hsub, fun c hc => h.old c (hsub.subset hc),
    fun k hk => h.marked k (List.mem_filter.mp hk).1⟩

theorem pushBack_owned (s : LinuxTcpServer) (c : Nat) :
    (s.pushBack { id := c }).owned = s.owned ++ [c] := by
  simp [owned, pushBack]

theorem pushBack_isValid {s : LinuxTcpServer} {c d : Nat} :
    (s.pushBack { id := c }).isValid d = true ↔ s.isValid d = true ∨ c = d := by
  simp [isValid, pushBack]

theorem WellFormed.pushBack {s : LinuxTcpServer} {nextId : Nat} (h : s.WellFormed nextId) :
    (s.pushBack { id := nextId }).WellFormed (nextId + 1) := by
  refine ⟨?_, ?_, ?_⟩
  · rw [pushBack_owned]
    refine List.nodup_append.mpr ⟨h.ids, List.nodup_singleton _, ?_⟩
    intro c hc d hd
    rw [List.mem_singleton.mp hd]
    exact Nat.ne_of_lt (h.old c hc)
  · rw [pushBack_owned]
    intro c hc
    rcases List.mem_append.mp hc with hc | hc
    · exact Nat.lt_succ_of_lt (h.old c hc)
    · rw [List.mem_singleton.mp hc]
      exact Nat.lt_succ_self nextId
  · intro k hk
    rcases List.mem_append.mp hk with hk | hk
    · exact h.marked k hk
    · rw [List.mem_singleton.mp hk]
      rfl

/-- The connections that are owned, valid and were given a slot. -/
def admitted (s : LinuxTcpServer) (log : List (ServerNote TcpWorld)) : List LinuxTcpConnection :=
  s.connections.filter fun k => k.bev && (admittedOf log).contains k.id

end LinuxTcpServer

namespace LineServer

variable {N n : Nat} {leaving : Option Nat}

/-! ## The two tables -/

structure Tied (leaving : Option Nat) (s : LineServer TcpWorld N n) : Prop extends
    Distinct s where
  server : s.world.server.WellFormed s.world.nextId
  owned : ∀ c ∈ s.bound, c ∈ s.world.server.owned
  known : ∀ c ∈ s.bound, c ∈ admittedOf s.log
  past : ∀ c ∈ admittedOf s.log, c < s.world.nextId
  valid : ∀ c ∈ admittedOf s.log, leaving ≠ some c →
    (c ∈ s.bound ↔ s.world.server.isValid c = true)
  looked : ∀ bound w, .consulted bound w ∈ s.log →
    bound.Nodup ∧ ∀ c ∈ bound, c ∈ w.server.owned

/-- As long as all callbacks were safe. -/
def Holds (leaving : Option Nat) (s : LineServer TcpWorld N n) : Prop :=
  callbacksSafe s.log = true → Tied leaving s

theorem Tied.weaken {s : LineServer TcpWorld N n} (h : Tied none s) : Tied leaving s :=
  { h with valid := fun c hc _ => h.valid c hc (Option.some_ne_none c).symm }

/-- No connection is leaving any more. -/
theorem Tied.settle {s : LineServer TcpWorld N n} {connection : Nat}
    (h : Tied (some connection) s)
    (hvalid : connection ∈ s.bound ↔ s.world.server.isValid connection = true) :
    Tied none s := by
  refine { h with valid := ?_ }
  intro c hc _
  by_cases heq : c = connection
  · rw [heq]
    exact hvalid
  · exact h.valid c hc fun hsome => heq (Option.some.inj hsome).symm

/-! ## What leaves both tables as they are -/

structure Same (s s' : LineServer TcpWorld N n) : Prop where
  connection : ∀ i, (s'.slots i).connection = (s.slots i).connection
  server : s'.world.server = s.world.server
  nextId : s'.world.nextId = s.world.nextId
  admitted : admittedOf s'.log = admittedOf s.log
  safe : callbacksSafe s'.log = callbacksSafe s.log
  looked : ∀ bound w, .consulted bound w ∈ s'.log →
    .consulted bound w ∈ s.log ∨ (bound = s.bound ∧ w.server = s.world.server)

theorem Same.bound {s s' : LineServer TcpWorld N n} (h : Same s s') : s'.bound = s.bound := by
  simp only [LineServer.bound, h.connection]

theorem Tied.same {s s' : LineServer TcpWorld N n} (h : Tied leaving s) (hs : Same s s') :
    Tied leaving s' := by
  have hdistinct : Distinct s' := h.toDistinct.of_sub fun i c hc => hs.connection i ▸ hc
  refine ⟨hdistinct, ?_, ?_, ?_, ?_, ?_, ?_⟩
  · rw [hs.server, hs.nextId]
    exact h.server
  · rw [hs.bound, hs.server]
    exact h.owned
  · rw [hs.bound, hs.admitted]
    exact h.known
  · rw [hs.admitted, hs.nextId]
    exact h.past
  · rw [hs.admitted, hs.bound, hs.server]
    exact h.valid
  · intro bound w hlog
    rcases hs.looked bound w hlog with hold | ⟨rfl, hserver⟩
    · exact h.looked bound w hold
    · rw [hserver]
      exact ⟨h.toDistinct.bound_nodup, h.owned⟩

theorem Holds.same {s s' : LineServer TcpWorld N n} (h : Holds leaving s) (hs : Same s s') :
    Holds leaving s' :=
  fun hsafe => (h (hs.safe ▸ hsafe)).same hs

theorem Same.refl (s : LineServer TcpWorld N n) : Same s s :=
  ⟨fun _ => rfl, rfl, rfl, rfl, rfl, fun _ _ h => Or.inl h⟩

theorem Same.trans {a b c : LineServer TcpWorld N n} (h : Same a b) (h' : Same b c) :
    Same a c := by
  refine ⟨fun i => (h'.connection i).trans (h.connection i), h'.server.trans h.server,
    h'.nextId.trans h.nextId, h'.admitted.trans h.admitted, h'.safe.trans h.safe,
    ?_⟩
  intro bound w hlog
  rcases h'.looked bound w hlog with hb | ⟨hbound, hserver⟩
  · exact h.looked bound w hb
  · exact Or.inr ⟨hbound.trans h.bound, hserver.trans h.server⟩

theorem consult_same (s : LineServer TcpWorld N n) : Same s s.consult := by
  refine ⟨fun _ => rfl, rfl, rfl, rfl, rfl, ?_⟩
  intro bound w hlog
  rcases List.mem_cons.mp hlog with heq | hold
  · injection heq with hbound hworld
    exact Or.inr ⟨hbound, congrArg TcpWorld.server hworld⟩
  · exact Or.inl hold

/-- What goes on in the buffers. -/
theorem world_same (s : LineServer TcpWorld N n) {w : TcpWorld}
    (hserver : w.server = s.world.server) (hnext : w.nextId = s.world.nextId) :
    Same s { s with world := w } :=
  ⟨fun _ => rfl, hserver, hnext, rfl, rfl, fun _ _ h => Or.inl h⟩

theorem putSlot_same (s : LineServer TcpWorld N n) (i : Nat) (slot : LineSlot N)
    (h : slot.connection = (s.slots i).connection) : Same s (s.putSlot i slot) := by
  refine ⟨?_, rfl, rfl, rfl, rfl, fun _ _ h => Or.inl h⟩
  intro j
  by_cases hij : j = i
  · rw [hij, putSlot_self, h]
  · rw [putSlot_of_ne s hij]

theorem note_read_same (s : LineServer TcpWorld N n) (connection : Nat) (byte : UInt8) :
    Same s (s.note (.read connection byte)) := by
  refine ⟨fun _ => rfl, rfl, rfl, rfl, rfl, fun bound w hlog => Or.inl ?_⟩
  rcases List.mem_cons.mp hlog with heq | hold
  · cases heq
  · exact hold

theorem Looks.same {s t : LineServer TcpWorld N n} (h : Looks linuxEnv s t) : Same s t := by
  induction h with
  | refl => exact .refl _
  | valid connection _ ih => exact ih.trans (consult_same _)
  | inputSize connection _ ih => exact ih.trans (consult_same _)
  | outputSize connection _ ih => exact ih.trans (consult_same _)
  | monitor i m _ ih => exact ih.trans (putSlot_same _ i _ rfl)

theorem read_same (s : LineServer TcpWorld N n) (i : Nat) : Same s (s.read linuxEnv i).2 := by
  unfold read
  split
  · exact .refl s
  · rename_i connection _
    have hworld : (linuxEnv.read connection s.world).2.server = s.world.server
        ∧ (linuxEnv.read connection s.world).2.nextId = s.world.nextId := by
      simp only [linuxEnv]
      split <;> exact ⟨rfl, rfl⟩
    have hasked : Same s (s.ask (linuxEnv.read connection)).2 :=
      (consult_same s).trans (world_same s.consult hworld.1 hworld.2)
    dsimp only
    split
    · exact hasked.trans (note_read_same _ connection _)
    · exact hasked

/-! ## Closing -/

theorem Tied.world {s : LineServer TcpWorld N n} {l : Option Nat} (h : Tied leaving s)
    {w : TcpWorld} (hnext : s.world.nextId ≤ w.nextId) (hserver : w.server.WellFormed w.nextId)
    (howned : ∀ c ∈ s.bound, c ∈ w.server.owned)
    (hvalid : ∀ c ∈ admittedOf s.log, l ≠ some c →
      (c ∈ s.bound ↔ w.server.isValid c = true)) :
    Tied l ({ s with world := w } : LineServer TcpWorld N n) :=
  { toDistinct := ⟨h.range, h.one⟩
    server := hserver
    owned := howned
    known := h.known
    past := fun c hc => Nat.lt_of_lt_of_le (h.past c hc) hnext
    valid := hvalid
    looked := h.looked }

/-- A connection is closed that is leaving, or is not bound. -/
theorem Tied.close {s : LineServer TcpWorld N n} (h : Tied leaving s) {connection : Nat}
    (hc : leaving = some connection ∨ connection ∉ s.bound) :
    Tied leaving (s.onServer (·.closeConnection connection)) := by
  refine h.world le_rfl (h.server.closeConnection connection) ?_
    ?_
  · intro c hb
    exact (LinuxTcpServer.closeConnection_owned _ connection).symm ▸ h.owned c hb
  · intro c hadmitted hne
    rw [LinuxTcpServer.closeConnection_isValid, ← h.valid c hadmitted hne]
    refine ⟨fun hb => ⟨?_, hb⟩, fun hb => hb.2⟩
    rintro rfl
    rcases hc with hleaving | hfree
    · exact hne hleaving
    · exact hfree hb

theorem Tied.serverClose {s : LineServer TcpWorld N n} (h : Tied leaving s)
    (hbound : s.bound = []) : Tied leaving (s.onServer .close) := by
  refine h.world le_rfl (LinuxTcpServer.wellFormed_close _ _) ?_
    ?_
  · intro c hb
    rw [hbound] at hb
    cases hb
  · intro c _ _
    rw [hbound]
    simp [LinuxTcpServer.close, LinuxTcpServer.isValid]

/-- The sweep takes only what is not bound. -/
theorem Tied.sweep {s : LineServer TcpWorld N n} (h : Tied none s) :
    Tied none (s.onServer .sweepClosed) := by
  have hvalid : ∀ c ∈ admittedOf s.log,
      (c ∈ s.bound ↔ s.world.server.sweepClosed.isValid c = true) := fun c hc => by
    rw [h.server.sweepClosed_isValid]
    exact h.valid c hc (Option.some_ne_none c).symm
  refine h.world le_rfl h.server.sweepClosed ?_ fun c hc _ => hvalid c hc
  intro c hb
  exact LinuxTcpServer.owned_of_isValid ((hvalid c (h.known c hb)).mp hb)

/-! ## The application's callbacks -/

theorem Tied.act {s : LineServer TcpWorld N n} {k : AppCall} (h : Tied k.leaving s)
    {a : AppAction} (ha : a.safe k s.bound = true) :
    Tied k.leaving ({ s with world := s.world.act a } : LineServer TcpWorld N n) := by
  cases a with
  | close connection => exact h.close (of_decide_eq_true ha)
  | serverClose => exact h.serverClose (List.isEmpty_iff.mp ha)
  | write connection len =>
      refine h.same (world_same s ?_ ?_) <;> simp only [TcpWorld.act] <;> split <;> rfl

theorem Tied.acts {k : AppCall} {bound : List Nat} (actions : List AppAction)
    (ha : actions.all (AppAction.safe k bound) = true) {s : LineServer TcpWorld N n}
    (h : Tied k.leaving s) (hbound : s.bound = bound) :
    Tied k.leaving ({ s with world := actions.foldl TcpWorld.act s.world } :
      LineServer TcpWorld N n) := by
  induction actions generalizing s with
  | nil => exact h
  | cons a rest ih =>
      rw [List.all_cons, Bool.and_eq_true] at ha
      exact ih ha.2 (h.act (hbound ▸ ha.1)) hbound

theorem Holds.call {s : LineServer TcpWorld N n} (h : Holds none s) (k : AppCall) :
    Holds k.leaving (s.call linuxEnv k) := by
  intro hsafe
  obtain ⟨hnow, hbefore⟩ : callbackSafe k s.bound s.world = true
      ∧ callbacksSafe s.log = true := Bool.and_eq_true_iff.mp hsafe
  have hnoted : Tied k.leaving (s.note (.called k s.bound s.world)) := by
    have htied : Tied k.leaving s := (h hbefore).weaken
    refine { htied with looked := ?_ }
    intro bound w hlog
    rcases List.mem_cons.mp hlog with heq | hold
    · cases heq
    · exact htied.looked bound w hold
  have htail : Tied k.leaving { s.note (.called k s.bound s.world) with
      world := { s.world with script := s.world.script.tail } } :=
    hnoted.same (world_same _ rfl rfl)
  exact htail.acts _ hnow rfl

/-! ## Letting go of a slot -/

theorem Tied.unbind {s : LineServer TcpWorld N n} {connection i : Nat}
    (h : Tied (some connection) s) (hi : (s.slots i).connection = some connection) :
    Tied (some connection) (s.unbind i) := by
  have hmem : ∀ c, c ∈ (s.unbind i).bound ↔ c ≠ connection ∧ c ∈ s.bound :=
    fun c => h.toDistinct.mem_bound_unbind hi
  have hdistinct : Distinct (s.unbind i) :=
    h.toDistinct.of_sub fun j c hj => (unbind_connection hj).2
  refine ⟨hdistinct, h.server, fun c hb => h.owned c ((hmem c).mp hb).2,
    fun c hb => h.known c ((hmem c).mp hb).2, h.past, ?_, h.looked⟩
  intro c hc hne
  have hother : c ≠ connection := fun heq => hne (congrArg some heq.symm)
  refine (hmem c).trans (Iff.trans ?_ (h.valid c hc hne))
  exact ⟨fun hb => hb.2, fun hb => ⟨hother, hb⟩⟩

/-- A connection without a slot is closed and has left. -/
theorem Tied.depart {s : LineServer TcpWorld N n} {connection : Nat}
    (h : Tied (some connection) s) (hfree : connection ∉ s.bound) :
    Tied none (s.onServer (·.closeConnection connection)) := by
  refine (h.close (Or.inl rfl)).settle ⟨fun hb => absurd hb hfree, ?_⟩
  intro hvalid
  exact absurd rfl (LinuxTcpServer.closeConnection_isValid.mp hvalid).1

theorem Holds.release {s : LineServer TcpWorld N n} {connection : Nat}
    (h : Holds (some connection) s) :
    Holds none ((s.release connection).onServer (·.closeConnection connection)) := by
  have hconsulted : Holds (some connection) s.consult := h.same (consult_same s)
  unfold LineServer.release
  dsimp only
  split
  · rename_i i hfind
    have hi := find_some hfind
    refine fun hsafe => ((hconsulted hsafe).unbind hi).depart ?_
    intro hb
    exact absurd rfl (((hconsulted hsafe).toDistinct.mem_bound_unbind hi).mp hb).1
  · rename_i hfind
    refine fun hsafe => (hconsulted hsafe).depart ?_
    intro hb
    obtain ⟨i, hi, hc⟩ := mem_bound.mp hb
    exact find_none hfind hi hc

/-! ## Backpressure -/

theorem Holds.closeOnLimit {s : LineServer TcpWorld N n} {connection : Nat}
    (h : Holds (some connection) s) :
    Holds (some connection) (s.closeOnLimit linuxEnv connection) := by
  have hlooked := h.same ((Looks.refl s).andValid s.options.closeOnLimit connection).same
  unfold LineServer.closeOnLimit
  dsimp only
  split
  · have hconsulted := hlooked.same (consult_same _)
    exact fun hsafe => (hconsulted hsafe).close (Or.inl rfl)
  · exact hlooked

theorem closeOnLimit_connection (s : LineServer TcpWorld N n) (i connection : Nat) :
    ((s.closeOnLimit linuxEnv connection).slots i).connection = (s.slots i).connection := by
  have hsame := ((Looks.refl s).andValid s.options.closeOnLimit connection).same
  unfold LineServer.closeOnLimit
  dsimp only
  split
  · exact hsame.connection i
  · exact hsame.connection i

theorem Holds.limit {s : LineServer TcpWorld N n} {i connection : Nat} (h : Holds none s)
    (hi : (s.slots i).connection = some connection) (info : TcpBackpressureInfo) :
    Holds none (s.limit linuxEnv i connection info) := by
  have hclosed : Holds (some connection)
      ((s.call linuxEnv (.onBackpressure connection info)).closeOnLimit linuxEnv connection) :=
    (h.call (.onBackpressure connection info)).closeOnLimit
  have hslot := (closeOnLimit_connection
    (s.call linuxEnv (.onBackpressure connection info)) i connection).trans hi
  unfold LineServer.limit
  generalize (s.call linuxEnv (.onBackpressure connection info)).closeOnLimit linuxEnv
    connection = t at hclosed hslot ⊢
  have hconsulted : Holds (some connection) t.consult := hclosed.same (consult_same t)
  dsimp only [ask, linuxEnv]
  split
  · rename_i hinvalid
    intro hsafe
    have ht := hconsulted hsafe
    refine (ht.unbind hslot).settle ⟨?_, ?_⟩
    · intro hb
      exact absurd rfl ((ht.toDistinct.mem_bound_unbind hslot).mp hb).1
    · intro hvalid
      have hgone : t.consult.world.server.isValid connection = false := by simpa using hinvalid
      exact absurd (hgone.symm.trans hvalid) Bool.false_ne_true
  · rename_i hstays
    intro hsafe
    have ht := hconsulted hsafe
    have hvalid : t.consult.world.server.isValid connection = true := by simpa using hstays
    have hbound : connection ∈ t.consult.bound :=
      mem_bound.mpr ⟨i, ht.range i connection hslot, hslot⟩
    exact ht.settle ⟨fun _ => hvalid, fun _ => hbound⟩

theorem Holds.checkBackpressure {s : LineServer TcpWorld N n} (h : Holds none s) (i : Nat) :
    Holds none (s.checkBackpressure linuxEnv i) := by
  unfold LineServer.checkBackpressure
  split
  · exact h
  · rename_i connection hi
    have hvalid : Same s (s.ask (linuxEnv.valid connection)).2 := consult_same s
    have hchecked := hvalid.trans (check_looks linuxEnv _ i connection).same
    dsimp only
    split
    · exact h.same hvalid
    · split
      · exact h.same hchecked
      · exact (h.same hchecked).limit ((hchecked.connection i).trans hi) _

theorem Holds.checkAllBackpressure {s : LineServer TcpWorld N n} (h : Holds none s) :
    Holds none (s.checkAllBackpressure linuxEnv) := by
  unfold LineServer.checkAllBackpressure
  induction List.range n generalizing s with
  | nil => exact h
  | cons i rest ih => exact ih (h.checkBackpressure i)

/-! ## Reading -/

theorem Holds.handleLine {s : LineServer TcpWorld N n} (h : Holds none s) (i : Nat)
    (line : List UInt8) : Holds none (s.handleLine linuxEnv i line) := by
  unfold LineServer.handleLine
  split
  · exact h
  · rename_i connection _
    have hvalid : Holds none (s.ask (linuxEnv.valid connection)).2 := h.same (consult_same s)
    dsimp only
    split
    · exact hvalid.call (.onLine connection line)
    · exact hvalid

theorem Holds.consume {s : LineServer TcpWorld N n} (h : Holds none s) (i : Nat)
    (byte : UInt8) : Holds none (s.consume linuxEnv i byte) := by
  have htaken := h.same (putSlot_same s i
    { s.slots i with reader := ((s.slots i).reader.readByte byte).1 } rfl)
  unfold LineServer.consume
  dsimp only
  split
  · exact htaken.handleLine i _
  · exact htaken

theorem Holds.poll {i turns : Nat} {s t : LineServer TcpWorld N n} (h : Holds none s)
    (hpoll : s.poll linuxEnv i turns = some t) : Holds none t := by
  induction turns generalizing s with
  | zero => cases hpoll
  | succ turns ih =>
      have hready := h.same (readable_looks linuxEnv s i).same
      have hread := hready.same (read_same (s.readable linuxEnv i).2 i)
      simp only [LineServer.poll] at hpoll
      split at hpoll
      · exact Option.some.inj hpoll ▸ hready
      · split at hpoll
        · exact Option.some.inj hpoll ▸ hread
        · exact ih (hread.consume i _) hpoll

/-! ## Taking a slot -/

theorem Tied.bind {s : LineServer TcpWorld N n} (h : Tied none s) {connection i : Nat}
    (hfind : s.find connection = none) (hfree : s.free = some i)
    (hvalid : s.world.server.isValid connection = true) : Tied none (s.bind i connection) := by
  have hmem : ∀ c, c ∈ (s.bind i connection).bound ↔ c = connection ∨ c ∈ s.bound :=
    fun c => mem_bound_bind hfree
  have hadmitted : ∀ c, c ∈ admittedOf (s.bind i connection).log
      ↔ c = connection ∨ c ∈ admittedOf s.log :=
    fun c => List.mem_cons
  have howned := LinuxTcpServer.owned_of_isValid hvalid
  refine ⟨h.toDistinct.bind hfind hfree, h.server, ?_, ?_,
    ?_, ?_, ?_⟩
  · intro c hb
    rcases (hmem c).mp hb with rfl | hb
    · exact howned
    · exact h.owned c hb
  · intro c hb
    rw [hadmitted]
    exact ((hmem c).mp hb).imp_right (h.known c)
  · intro c hc
    rcases (hadmitted c).mp hc with rfl | hc
    · exact h.server.old c howned
    · exact h.past c hc
  · intro c hc _
    rw [hmem c]
    by_cases heq : c = connection
    · rw [heq]
      exact ⟨fun _ => hvalid, fun _ => Or.inl rfl⟩
    · have hc : c ∈ admittedOf s.log := ((hadmitted c).mp hc).resolve_left heq
      rw [or_iff_right heq]
      exact h.valid c hc (Option.some_ne_none c).symm
  · intro bound w hlog
    rcases List.mem_cons.mp hlog with heq | hold
    · cases heq
    · exact h.looked bound w hold

theorem Holds.acquire {s : LineServer TcpWorld N n} (h : Holds none s) {connection : Nat}
    (hvalid : s.world.server.isValid connection = true) :
    Holds none (s.acquire connection).2 := by
  have hconsulted := h.same (consult_same s)
  have hspec := acquire_spec s connection
  generalize s.acquire connection = r at hspec ⊢
  obtain ⟨slot, t⟩ := r
  cases hspec with
  | found i hfind => exact hconsulted
  | bound i hfind hfree => exact fun hsafe => (hconsulted hsafe).bind hfind hfree hvalid
  | full hfind hfree => exact hconsulted

theorem Holds.onAccept {s : LineServer TcpWorld N n} (h : Holds none s) {connection : Nat}
    (hvalid : s.world.server.isValid connection = true) (peer : TcpPeerInfo) :
    Holds none (s.onAccept linuxEnv connection peer) := by
  have hacquired := h.acquire hvalid
  unfold LineServer.onAccept
  dsimp only
  split
  · exact hacquired.call (.onTooManyConnections connection)
  · rename_i i _
    have hreset := hacquired.same (putSlot_same _ i { (s.acquire connection).2.slots i with
      backpressure := ((s.acquire connection).2.slots i).backpressure.reset } rfl)
    exact hreset.call (.onAccept connection peer)

theorem Holds.onData {s t : LineServer TcpWorld N n} (h : Holds none s) {connection turns : Nat}
    (hvalid : s.world.server.isValid connection = true)
    (hdata : s.onData linuxEnv connection turns = some t) : Holds none t := by
  have hacquired := h.acquire hvalid
  unfold LineServer.onData at hdata
  dsimp only at hdata
  split at hdata
  · exact Option.some.inj hdata ▸ hacquired.call (.onTooManyConnections connection)
  · obtain ⟨u, hpoll, rfl⟩ := Option.map_eq_some_iff.mp hdata
    exact (hacquired.poll hpoll).checkAllBackpressure

theorem Holds.onWriteReady {s : LineServer TcpWorld N n} (h : Holds none s) (connection : Nat) :
    Holds none (s.onWriteReady linuxEnv connection) := by
  have hconsulted := h.same (consult_same s)
  unfold LineServer.onWriteReady
  dsimp only
  split
  · exact hconsulted.checkBackpressure _
  · exact hconsulted

/-! ## Runs -/

theorem Holds.sweep {s : LineServer TcpWorld N n} (h : Holds none s) :
    Holds none (s.onServer .sweepClosed) :=
  fun hsafe => (h hsafe).sweep

/-- The new connection is valid, and as yet it has no slot. -/
theorem Tied.push {s : LineServer TcpWorld N n} (h : Tied none s) : Tied none s.push := by
  refine h.world (Nat.le_succ _) h.server.pushBack ?_ ?_
  · intro c hb
    rw [LinuxTcpServer.pushBack_owned]
    exact List.mem_append_left _ (h.owned c hb)
  · intro c hc _
    have hnew : s.world.nextId ≠ c := Nat.ne_of_gt (h.past c hc)
    rw [LinuxTcpServer.pushBack_isValid, or_iff_left hnew]
    exact h.valid c hc (Option.some_ne_none c).symm

theorem push_isValid (s : LineServer TcpWorld N n) :
    s.push.world.server.isValid s.world.nextId = true :=
  LinuxTcpServer.pushBack_isValid.mpr (Or.inr rfl)

theorem Holds.acceptCallback {s : LineServer TcpWorld N n} (h : Holds none s)
    (peer : TcpPeerInfo) (opened : Bool) : Holds none (s.acceptCallback peer opened) := by
  have hswept := h.sweep
  unfold LineServer.acceptCallback
  dsimp only
  split
  · exact h
  · split
    · exact hswept
    · split
      · exact hswept
      · have hpushed : Holds none (s.onServer .sweepClosed).push :=
          fun hsafe => (hswept hsafe).push
        exact (hpushed.onAccept (push_isValid _) peer).sweep

/-- **The step lemma.** -/
theorem callbackStep_holds {s s' : LineServer TcpWorld N n} {e : TcpEvent} (h : Holds none s)
    (hstep : s.callbackStep e = some s') : Holds none s' := by
  have hscript : ∀ script, Same s (s.withScript script) := fun _ => world_same s rfl rfl
  cases e with
  | accept peer opened script =>
      obtain rfl := Option.some.inj hstep
      exact (h.same (hscript script)).acceptCallback peer opened
  | readable connection bytes turns script =>
      obtain ⟨hvalid, hmap⟩ := Option.ite_none_right_eq_some.mp hstep
      obtain ⟨t, hdata, rfl⟩ := Option.map_eq_some_iff.mp hmap
      have hreceived : Same s ((s.withScript script).receive connection bytes) :=
        world_same s rfl rfl
      exact ((h.same hreceived).onData hvalid hdata).sweep
  | writable connection pending script =>
      obtain ⟨-, hsome⟩ := Option.ite_none_right_eq_some.mp hstep
      obtain rfl := Option.some.inj hsome
      have hdrained : Same s ((s.withScript script).drain connection pending) :=
        world_same s rfl rfl
      exact ((h.same hdrained).onWriteReady connection).sweep
  | failed connection errorCode script =>
      obtain ⟨-, hsome⟩ := Option.ite_none_right_eq_some.mp hstep
      obtain rfl := Option.some.inj hsome
      have hcalled := (h.same (hscript script)).call (.onError connection errorCode)
      exact hcalled.release.sweep
  | eof connection script =>
      obtain ⟨-, hsome⟩ := Option.ite_none_right_eq_some.mp hstep
      obtain rfl := Option.some.inj hsome
      have hcalled := (h.same (hscript script)).call (.onClose connection)
      exact hcalled.release.sweep

theorem listening_tied (N n maxConnections : Nat) (options : TcpBackpressureOptions) :
    Tied none (listening N n maxConnections options) := by
  have hbound : (listening N n maxConnections options).bound = [] :=
    List.filterMap_eq_nil_iff.mpr fun _ _ => rfl
  refine ⟨distinct_fresh N n options _, ⟨List.nodup_nil, List.forall_mem_nil _,
    List.forall_mem_nil _⟩, ?_, ?_, List.forall_mem_nil _, ?_, ?_⟩
  · rw [hbound]
    exact List.forall_mem_nil _
  · rw [hbound]
    exact List.forall_mem_nil _
  · intro c hc
    cases hc
  · intro bound w hlog
    cases hlog

theorem Tied.activeConnections {s : LineServer TcpWorld N n} (h : Tied none s) :
    s.activeConnections = (s.world.server.admitted s.log).length := by
  have hids : ((s.world.server.admitted s.log).map LinuxTcpConnection.id).Nodup :=
    h.server.ids.sublist (List.filter_sublist.map _)
  have hperm : s.bound.Perm ((s.world.server.admitted s.log).map LinuxTcpConnection.id) := by
    refine (List.perm_ext_iff_of_nodup h.toDistinct.bound_nodup hids).mpr ?_
    intro c
    have hfiltered : c ∈ (s.world.server.admitted s.log).map LinuxTcpConnection.id
        ↔ s.world.server.isValid c = true ∧ c ∈ admittedOf s.log := by
      simp only [LinuxTcpServer.admitted, LinuxTcpServer.isValid_iff, List.mem_map,
        List.mem_filter, Bool.and_eq_true, List.contains_iff_mem]
      constructor
      · rintro ⟨k, ⟨hk, hbev, hc⟩, rfl⟩
        exact ⟨⟨k, hk, rfl, hbev⟩, hc⟩
      · rintro ⟨⟨k, hk, rfl, hbev⟩, hc⟩
        exact ⟨k, ⟨hk, hbev, hc⟩, rfl⟩
    rw [hfiltered]
    constructor
    · intro hb
      have hc := h.known c hb
      exact ⟨(h.valid c hc (Option.some_ne_none c).symm).mp hb, hc⟩
    · rintro ⟨hvalid, hc⟩
      exact (h.valid c hc (Option.some_ne_none c).symm).mpr hvalid
  rw [activeConnections_eq, hperm.length_eq, List.length_map]

/-- **The slots' connections are owned**: in every run in which the callbacks were
safe, wherever a slot's connection is consulted and behind every event. -/
theorem slots_owned (maxConnections : Nat) (options : TcpBackpressureOptions)
    {s : LineServer TcpWorld N n} {es : List TcpEvent}
    (hrun : run callbackStep (listening N n maxConnections options) es = some s)
    (hsafe : callbacksSafe s.log = true) :
    (∀ bound w, .consulted bound w ∈ s.log →
        bound.Nodup ∧ ∀ c ∈ bound, c ∈ w.server.owned)
      ∧ s.bound.Nodup ∧ (∀ c ∈ s.bound, c ∈ s.world.server.owned)
      ∧ s.activeConnections = (s.world.server.admitted s.log).length := by
  have hholds : Holds none s :=
    run_invariant (fun _ _ _ h hstep => callbackStep_holds h hstep)
      (fun _ => listening_tied N n maxConnections options) hrun
  have htied := hholds hsafe
  exact ⟨htied.looked, htied.toDistinct.bound_nodup, htied.owned, htied.activeConnections⟩

/-- One slot: a line is echoed, a second client is turned away, and the first is
closed when it hangs up. -/
theorem slots_owned_run : ∃ s : LineServer TcpWorld 8 1,
    run callbackStep (listening 8 1 4 {})
        [.accept {} true [], .readable 0 [113, 10] 4 [[.write 0 2]], .accept {} true [[.close 1]],
          .eof 0 [[.close 0]], .accept {} true []] = some s
      ∧ s.bound = [2] ∧ s.activeConnections = (s.world.server.admitted s.log).length := by
  have hrun : run callbackStep (listening 8 1 4 {} : LineServer TcpWorld 8 1)
      [.accept {} true [], .readable 0 [113, 10] 4 [[.write 0 2]], .accept {} true [[.close 1]],
        .eof 0 [[.close 0]], .accept {} true []] = some _ := rfl
  exact ⟨_, hrun, rfl, (slots_owned 4 {} hrun rfl).2.2.2⟩

/-- The server is closed in `on_line`: the slot goes on with a connection that has
been destroyed. -/
theorem closed_server_leaves_slot : ∃ s : LineServer TcpWorld 8 1,
    run callbackStep (listening 8 1 4 {})
        [.accept {} true [], .readable 0 [113, 10] 4 [[.serverClose]]] = some s
      ∧ (∃ bound w, .consulted bound w ∈ s.log ∧ 0 ∈ bound ∧ 0 ∉ w.server.owned)
      ∧ s.bound = [0] ∧ s.world.server.owned = [] ∧ s.activeConnections = 1
      ∧ s.world.server.admitted s.log = [] := by
  have hrun : run callbackStep (listening 8 1 4 {} : LineServer TcpWorld 8 1)
      [.accept {} true [], .readable 0 [113, 10] 4 [[.serverClose]]] = some _ := rfl
  refine ⟨_, hrun, ⟨_, _, List.mem_cons_self, List.mem_singleton.mpr rfl, ?_⟩, rfl, rfl, rfl, rfl⟩
  exact List.not_mem_nil

/-- A connection is closed in `on_line`: the sweep destroys it, and the slot stays. -/
example : (run callbackStep (listening 8 1 4 {} : LineServer TcpWorld 8 1)
    [.accept {} true [], .readable 0 [113, 10] 4 [[.close 0]]]).map
      (fun s => (s.bound, s.world.server.owned)) = some ([0], []) := rfl

end LineServer

end AsyncEventLoop
