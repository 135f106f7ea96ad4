import AsyncEventLoop.LinuxTcpCallbacks

/-!
# Shutting down the Linux TCP server

`close` of the server, `listen` and `remove` destroy connections at once, also
inside a callback of the handler. The trampoline the callback was made from
goes on behind it. Those for incoming data and for writing only look at what
the server still has. The one for bufferevent events closes its connection,
which is not there any more if the handler has shut down the server.

So no destroyed connection is touched (`MemorySafe`) exactly if no `on_close`
and no `on_error` returns after its connection was destroyed.
-/

namespace AsyncEventLoop

open Runs

/-- No member of a connection is read or written once it was destroyed. -/
def MemorySafe (log : List TcpServerNote) : Prop :=
  log.Pairwise fun earlier later =>
    ∀ connection, earlier = .destroyed connection → later ≠ .touched connection

namespace TcpServerRun

/-- No callback that ends a connection returns after the connection was destroyed. -/
def returnsAlive (s : TcpServerRun) : TcpServerEvent → Bool
  | .callbackReturns =>
      match s.running with
      | some (.eventCallback connection) => decide (connection ∈ s.server.owned)
      | _ => true
  | _ => true

/-- What the server has, it has not destroyed. -/
structure Alive (s : TcpServerRun) : Prop where
  server : s.server.WellFormed s.nextId
  safe : MemorySafe s.log
  owned : ∀ connection ∈ s.server.owned, .destroyed connection ∉ s.log
  destroyed : ∀ connection, .destroyed connection ∈ s.log → connection < s.nextId

/-- Notes are appended to the log, and a connection that is dropped is noted. -/
structure Drops (s t : TcpServerRun) : Prop where
  log : s.log <+: t.log
  owned : ∀ connection ∈ s.server.owned,
    connection ∈ t.server.owned ∨ .destroyed connection ∈ t.log

theorem Drops.trans {s t u : TcpServerRun} (h : Drops s t) (h' : Drops t u) : Drops s u where
  log := h.log.trans h'.log
  owned connection hmem :=
    (h.owned connection hmem).elim (h'.owned connection)
      fun hgone => Or.inr (h'.log.subset hgone)

theorem memorySafe_append {log notes : List TcpServerNote} (h : MemorySafe log)
    (hnotes : MemorySafe notes)
    (hfresh : ∀ connection, .touched connection ∈ notes → .destroyed connection ∉ log) :
    MemorySafe (log ++ notes) := by
  refine List.pairwise_append.mpr ⟨h, hnotes, ?_⟩
  rintro earlier hearlier later hlater connection rfl rfl
  exact hfresh connection hlater hearlier

/-- Notes without a destroyed connection are safe, whatever they touch. -/
theorem memorySafe_of_alive {notes : List TcpServerNote}
    (h : ∀ connection, .destroyed connection ∉ notes) : MemorySafe notes := by
  refine List.pairwise_of_forall_mem_list ?_
  rintro earlier hearlier later - connection rfl
  exact absurd hearlier (h connection)

/-! ### The operations -/

/-- What the server has is touched, and nothing is destroyed. -/
theorem Alive.note {s : TcpServerRun} (h : Alive s) {notes : List TcpServerNote}
    (htouched : ∀ connection, .touched connection ∈ notes → connection ∈ s.server.owned)
    (hdestroyed : ∀ connection, .destroyed connection ∉ notes) : Alive (s.note notes) where
  server := h.server
  safe := memorySafe_append h.safe (memorySafe_of_alive hdestroyed)
    fun c hc => h.owned c (htouched c hc)
  owned c hc hmem :=
    h.owned c hc ((List.mem_append.mp hmem).resolve_right (hdestroyed c))
  destroyed c hmem :=
    h.destroyed c ((List.mem_append.mp hmem).resolve_right (hdestroyed c))

theorem drops_note (s : TcpServerRun) (notes : List TcpServerNote) : Drops s (s.note notes) where
  log := List.prefix_append _ _
  owned _ hc := Or.inl hc

theorem mem_sweepNotes {k : LinuxTcpConnection} {c : Nat} :
    (.touched c ∈ sweepNotes k ↔ c = k.id)
      ∧ (.destroyed c ∈ sweepNotes k ↔ c = k.id ∧ k.removeRequested = true) := by
  unfold sweepNotes
  cases k.removeRequested <;> simp

theorem sweepNotes_safe (k : LinuxTcpConnection) : MemorySafe (sweepNotes k) := by
  refine List.pairwise_cons.mpr ⟨?_, ?_⟩
  · rintro later - connection heq
    cases heq
  · split
    · exact List.pairwise_singleton _ _
    · exact List.Pairwise.nil

/-- The sweep looks at each connection once, before it destroys it. -/
theorem sweep_safe {connections : List LinuxTcpConnection}
    (hids : (connections.map LinuxTcpConnection.id).Nodup) :
    MemorySafe (connections.flatMap sweepNotes) := by
  refine List.pairwise_flatMap.mpr ⟨fun k _ => sweepNotes_safe k, ?_⟩
  refine (List.pairwise_map.mp hids).imp ?_
  rintro k k' hne earlier hearlier later hlater connection rfl rfl
  have hk := (mem_sweepNotes.2.mp hearlier).1
  have hk' := mem_sweepNotes.1.mp hlater
  exact hne (hk.symm.trans hk')

theorem Alive.sweepClosed {s : TcpServerRun} (h : Alive s) : Alive s.sweepClosed := by
  have htouched : ∀ c, .touched c ∈ s.server.connections.flatMap sweepNotes →
      c ∈ s.server.owned := by
    intro c hc
    obtain ⟨k, hk, hmem⟩ := List.mem_flatMap.mp hc
    exact LinuxTcpServer.mem_owned.mpr ⟨k, hk, (mem_sweepNotes.1.mp hmem).symm⟩
  constructor
  case server => exact h.server.sweepClosed
  case safe =>
      exact memorySafe_append h.safe (sweep_safe h.server.ids)
        fun c hc => h.owned c (htouched c hc)
  case owned =>
    intro c hc hmem
    obtain ⟨k, hk, hid⟩ := LinuxTcpServer.mem_owned.mp hc
    obtain ⟨hk, hkept⟩ := List.mem_filter.mp hk
    rcases List.mem_append.mp hmem with hmem | hmem
    · exact h.owned c (LinuxTcpServer.mem_owned.mpr ⟨k, hk, hid⟩) hmem
    · obtain ⟨k', hk', hdestroyed⟩ := List.mem_flatMap.mp hmem
      obtain ⟨hid', hremoved⟩ := mem_sweepNotes.2.mp hdestroyed
      have heq : k = k' := List.inj_on_of_nodup_map h.server.ids hk hk' (hid.trans hid')
      rw [heq, hremoved] at hkept
      cases hkept
  case destroyed =>
    intro c hmem
    rcases List.mem_append.mp hmem with hmem | hmem
    · exact h.destroyed c hmem
    · obtain ⟨k, hk, hdestroyed⟩ := List.mem_flatMap.mp hmem
      have hid := (mem_sweepNotes.2.mp hdestroyed).1
      exact h.server.old c (LinuxTcpServer.mem_owned.mpr ⟨k, hk, hid.symm⟩)

theorem drops_sweepClosed (s : TcpServerRun) : Drops s s.sweepClosed where
  log := List.prefix_append _ _
  owned c hc := by
    obtain ⟨k, hk, hid⟩ := LinuxTcpServer.mem_owned.mp hc
    by_cases hremoved : k.removeRequested = true
    · refine Or.inr (List.mem_append_right _ (List.mem_flatMap.mpr ⟨k, hk, ?_⟩))
      exact mem_sweepNotes.2.mpr ⟨hid.symm, hremoved⟩
    · refine Or.inl (LinuxTcpServer.mem_owned.mpr ⟨k, List.mem_filter.mpr ⟨hk, ?_⟩, hid⟩)
      simpa using hremoved

theorem Alive.closeConnection {s : TcpServerRun} (h : Alive s) {connection : Nat}
    (howned : connection ∈ s.server.owned) : Alive (s.closeConnection connection) := by
  have hnoted : Alive (s.note [.touched connection, .closed connection]) :=
    h.note (by simpa using howned) (by simp)
  have hsame := LinuxTcpServer.closeConnection_owned s.server connection
  exact ⟨h.server.closeConnection connection, hnoted.safe,
    fun c hc => hnoted.owned c (hsame ▸ hc), hnoted.destroyed⟩

theorem drops_closeConnection (s : TcpServerRun) (connection : Nat) :
    Drops s (s.closeConnection connection) where
  log := List.prefix_append _ _
  owned _ hc := Or.inl ((LinuxTcpServer.closeConnection_owned s.server connection).symm ▸ hc)

theorem Alive.close {s : TcpServerRun} (h : Alive s) : Alive s.close := by
  have htouched : ∀ c, .touched c ∈ s.server.owned.map .touched
      ++ s.server.owned.map TcpServerNote.destroyed → c ∈ s.server.owned := by
    intro c hc
    simpa using hc
  have hall : MemorySafe (s.server.owned.map .touched ++ s.server.owned.map .destroyed) := by
    refine memorySafe_append (memorySafe_of_alive (by simp)) ?_ (by simp)
    refine List.pairwise_of_forall_mem_list ?_
    rintro earlier - later hlater connection - rfl
    simp at hlater
  constructor
  case server => exact LinuxTcpServer.wellFormed_close s.server s.nextId
  case safe => exact memorySafe_append h.safe hall fun c hc => h.owned c (htouched c hc)
  case owned => exact fun c hc => by cases hc
  case destroyed =>
    intro c hmem
    rcases List.mem_append.mp hmem with hmem | hmem
    · exact h.destroyed c hmem
    · exact h.server.old c (by simpa using hmem)

theorem drops_close (s : TcpServerRun) : Drops s s.close where
  log := List.prefix_append _ _
  owned c hc := Or.inr (List.mem_append_right _ (by simpa using hc))

/-- The listener and the trampoline are no part of it. -/
theorem Alive.of_eq {s t : TcpServerRun} (h : Alive s)
    (hconnections : t.server.connections = s.server.connections) (hnext : t.nextId = s.nextId)
    (hlog : t.log = s.log) : Alive t := by
  have howned : t.server.owned = s.server.owned :=
    congrArg (List.map LinuxTcpConnection.id) hconnections
  refine ⟨⟨howned ▸ h.server.ids, ?_, hconnections ▸ h.server.marked⟩, hlog ▸ h.safe, ?_, ?_⟩
  · exact fun c hc => hnext ▸ h.server.old c (howned ▸ hc)
  · exact fun c hc => hlog ▸ h.owned c (howned ▸ hc)
  · exact fun c hc => hnext ▸ h.destroyed c (hlog ▸ hc)

theorem alive_listening (maxConnections : Nat) : Alive (listening maxConnections) where
  server := (follows_listening maxConnections).server
  safe := List.Pairwise.nil
  owned _ hc := by cases hc
  destroyed _ hc := by cases hc

/-- The notes about a socket that no connection is made of. -/
theorem Alive.reject {s : TcpServerRun} (h : Alive s) {notes : List TcpServerNote}
    (hsafe : MemorySafe notes) (hnew : ∀ c, .touched c ∈ notes ∨ .destroyed c ∈ notes →
      c = s.nextId) :
    Alive { s.note notes with nextId := s.nextId + 1 } where
  server := ⟨h.server.ids, fun c hc => Nat.lt_succ_of_lt (h.server.old c hc), h.server.marked⟩
  safe := memorySafe_append h.safe hsafe fun c hc hgone => by
    obtain rfl := hnew c (Or.inl hc)
    exact Nat.lt_irrefl _ (h.destroyed _ hgone)
  owned c hc hmem := by
    rcases List.mem_append.mp hmem with hmem | hmem
    · exact h.owned c hc hmem
    · obtain rfl := hnew c (Or.inr hmem)
      exact Nat.lt_irrefl _ (h.server.old _ hc)
  destroyed c hmem := by
    rcases List.mem_append.mp hmem with hmem | hmem
    · exact Nat.lt_succ_of_lt (h.destroyed c hmem)
    · obtain rfl := hnew c (Or.inr hmem)
      exact Nat.lt_succ_self _

theorem Alive.call {s : TcpServerRun} (h : Alive s) (callback : TcpServerCallback)
    (connection : Nat) (trampoline : Trampoline) :
    Alive (s.call callback connection trampoline) := by
  have hnoted : Alive (s.note [.called callback connection]) := h.note (by simp) (by simp)
  exact hnoted.of_eq rfl rfl rfl

theorem Alive.push {s : TcpServerRun} (h : Alive s) :
    Alive ({ s with nextId := s.nextId + 1 }.push s.nextId) where
  server := h.server.pushBack
  safe := by
    refine memorySafe_append h.safe (memorySafe_of_alive (by simp)) ?_
    intro c hc hgone
    obtain rfl : c = s.nextId := by simpa using hc
    exact Nat.lt_irrefl _ (h.destroyed _ hgone)
  owned c hc hmem := by
    have hgone : .destroyed c ∈ s.log := by
      simpa [TcpServerRun.push, TcpServerRun.note] using hmem
    have hc : c ∈ s.server.owned ++ [s.nextId] := LinuxTcpServer.pushBack_owned _ _ ▸ hc
    rcases List.mem_append.mp hc with hc | hc
    · exact h.owned c hc hgone
    · obtain rfl := List.mem_singleton.mp hc
      exact Nat.lt_irrefl _ (h.destroyed _ hgone)
  destroyed c hmem := by
    have hgone : .destroyed c ∈ s.log := by
      simpa [TcpServerRun.push, TcpServerRun.note] using hmem
    exact Nat.lt_succ_of_lt (h.destroyed c hgone)

theorem Alive.acceptCallback {s : TcpServerRun} (h : Alive s) (peer : TcpPeerInfo)
    (opened : Bool) : Alive (s.acceptCallback peer opened) := by
  have hcounted : Alive s.sweepClosed.connectionCount.2 :=
    h.sweepClosed.note (by simp) (by simp)
  have hsilent : MemorySafe [.rejected s.nextId] := memorySafe_of_alive (by simp)
  unfold TcpServerRun.acceptCallback
  dsimp only
  split
  · exact h.reject hsilent (by simp)
  · split
    · exact hcounted.reject hsilent (by simp)
    · split
      · have hsafe : MemorySafe [.touched s.nextId, .destroyed s.nextId, .rejected s.nextId] := by
          simp [MemorySafe]
        refine hcounted.reject hsafe ?_
        intro c hc
        change c = s.nextId
        simpa using hc
      · exact hcounted.push.call _ _ _

theorem acceptCallback_running (s : TcpServerRun) (peer : TcpPeerInfo) (opened : Bool) :
    (s.acceptCallback peer opened).running = s.running
      ∨ (s.acceptCallback peer opened).running = some .acceptCallback := by
  unfold acceptCallback
  dsimp only
  split
  · exact Or.inl rfl
  · split
    · exact Or.inl rfl
    · split
      · exact Or.inl rfl
      · exact Or.inr rfl

/-- The connection whose end is reported is there, or its destruction is in the log. -/
structure Sound (s : TcpServerRun) : Prop extends Alive s where
  ending : ∀ connection, Ending s connection →
    connection ∈ s.server.owned ∨ .destroyed connection ∈ s.log

theorem Sound.drops {s t : TcpServerRun} (h : Sound s) (halive : Alive t) (hdrops : Drops s t)
    (hrunning : t.running = s.running) : Sound t where
  toAlive := halive
  ending c hc := by
    rw [Ending, hrunning] at hc
    rcases h.ending c hc with howned | hgone
    · exact hdrops.owned c howned
    · exact Or.inr (hdrops.log.subset hgone)

/-- A state in which no end is being reported. -/
theorem Alive.sound {s : TcpServerRun} (h : Alive s) (hnot : ∀ c, ¬Ending s c) : Sound s :=
  ⟨h, fun c hc => absurd hc (hnot c)⟩

theorem not_memorySafe {log notes : List TcpServerNote} {connection : Nat}
    (hgone : .destroyed connection ∈ log) (htouched : .touched connection ∈ notes) :
    ¬MemorySafe (log ++ notes) := fun h =>
  (List.pairwise_append.mp h).2.2 _ hgone _ htouched connection rfl rfl

/-- The trampoline closes the connection, and that is where it goes wrong. -/
theorem Sound.callbackReturns {s : TcpServerRun} (h : Sound s) {trampoline : Trampoline}
    (hrunning : s.running = some trampoline) :
    (s.returnsAlive .callbackReturns = true ∧ Sound (s.callbackReturns trampoline))
      ∨ (s.returnsAlive .callbackReturns = false
        ∧ ¬MemorySafe (s.callbackReturns trampoline).log) := by
  have hidle : Alive { s with running := none } := h.toAlive.of_eq rfl rfl rfl
  have hother : Sound ({ s with running := none } : TcpServerRun).sweepClosed :=
    hidle.sweepClosed.sound fun c hc => by cases hc
  cases trampoline with
  | acceptCallback => exact Or.inl ⟨by simp [returnsAlive, hrunning], hother⟩
  | readCallback => exact Or.inl ⟨by simp [returnsAlive, hrunning], hother⟩
  | writeCallback => exact Or.inl ⟨by simp [returnsAlive, hrunning], hother⟩
  | eventCallback connection =>
      simp only [returnsAlive, hrunning, decide_eq_true_eq, decide_eq_false_iff_not]
      by_cases howned : connection ∈ s.server.owned
      · refine Or.inl ⟨howned, ?_⟩
        exact (hidle.closeConnection howned).sweepClosed.sound fun c hc => by cases hc
      · refine Or.inr ⟨howned, ?_⟩
        have hgone := (h.ending connection hrunning).resolve_left howned
        simp only [TcpServerRun.callbackReturns, sweepClosed, closeConnection, List.append_assoc]
        exact not_memorySafe hgone (List.mem_append_left _ List.mem_cons_self)

theorem Sound.step {s t : TcpServerRun} {e : TcpServerEvent} (h : Sound s)
    (hstep : s.step e = some t) :
    (s.returnsAlive e = true ∧ Sound t) ∨ (s.returnsAlive e = false ∧ ¬MemorySafe t.log) := by
  obtain ⟨henabled, hnext⟩ := Option.ite_none_right_eq_some.mp hstep
  obtain rfl := Option.some.inj hnext
  -- touching a connection that the server has, and then calling the handler for it
  have htouched : ∀ {connection}, connection ∈ s.server.owned →
      Alive (s.note [.touched connection]) :=
    fun howned => h.toAlive.note (by simpa using howned) (by simp)
  have hcall : ∀ {connection}, s.server.isValid connection = true →
      ∀ callback trampoline, (∀ c, trampoline = .eventCallback c → c = connection) →
        Sound ((s.note [.touched connection]).call callback connection trampoline) := by
    intro connection hvalid callback trampoline htrampoline
    have howned := LinuxTcpServer.owned_of_isValid hvalid
    refine ⟨(htouched howned).call _ _ _, ?_⟩
    intro c hc
    exact Or.inl (htrampoline c (Option.some.inj hc) ▸ howned)
  cases e with
  | accept peer opened =>
      refine Or.inl ⟨rfl, (h.toAlive.acceptCallback peer opened).sound ?_⟩
      have hidle := Option.isNone_iff_eq_none.mp henabled
      intro c hc
      rcases acceptCallback_running s peer opened with hrunning | hrunning
      · cases (hrunning.trans hidle).symm.trans hc
      · cases hrunning.symm.trans hc
  | readable connection =>
      have hvalid := (Bool.and_eq_true_iff.mp henabled).2
      simp only [next, readCallback]
      rw [if_pos (show (s.note _).server.isValid connection = true from hvalid)]
      exact Or.inl ⟨rfl, hcall hvalid _ _ (by simp)⟩
  | writable connection =>
      have hvalid := (Bool.and_eq_true_iff.mp henabled).2
      simp only [next, writeCallback]
      rw [if_pos (show (s.note _).server.isValid connection = true from hvalid)]
      exact Or.inl ⟨rfl, hcall hvalid _ _ (by simp)⟩
  | event connection timeout error eof errno =>
      obtain ⟨hidle, hvalid⟩ := Bool.and_eq_true_iff.mp henabled
      have hsame : ∀ c, Trampoline.eventCallback connection = .eventCallback c →
          c = connection := by
        rintro c ⟨⟩
        rfl
      refine Or.inl ⟨rfl, ?_⟩
      simp only [next, eventCallback]
      split
      · exact hcall hvalid _ _ hsame
      · split
        · exact hcall hvalid _ _ hsame
        · split
          · exact hcall hvalid _ _ hsame
          · refine (htouched (LinuxTcpServer.owned_of_isValid hvalid)).sweepClosed.sound ?_
            intro c hc
            cases (Option.isNone_iff_eq_none.mp hidle).symm.trans hc
  | closeConnection connection =>
      have howned := of_decide_eq_true henabled
      exact Or.inl ⟨rfl, h.drops (h.toAlive.closeConnection howned)
        (drops_closeConnection s connection) rfl⟩
  | use connection =>
      have howned := of_decide_eq_true henabled
      exact Or.inl ⟨rfl, h.drops (htouched howned) (drops_note s _) rfl⟩
  | remove connection =>
      have howned := of_decide_eq_true henabled
      exact Or.inl ⟨rfl, h.drops (h.toAlive.closeConnection howned).sweepClosed
        ((drops_closeConnection s connection).trans (drops_sweepClosed _)) rfl⟩
  | close => exact Or.inl ⟨rfl, h.drops h.toAlive.close (drops_close s) rfl⟩
  | listen bound =>
      have hclosed : Drops s (s.listen bound) := ⟨(drops_close s).log, (drops_close s).owned⟩
      exact Or.inl ⟨rfl, h.drops (h.toAlive.close.of_eq rfl rfl rfl) hclosed rfl⟩
  | callbackReturns =>
      obtain ⟨trampoline, hrunning⟩ := Option.isSome_iff_exists.mp henabled
      simp only [next, hrunning, Option.getD_some]
      exact h.callbackReturns hrunning

/-- Inside a callback, a connection is destroyed by `close` or `listen` of the server, or
by a `remove` when it is closed, or is the one to be removed. -/
theorem destroyed_in_callback {s t : TcpServerRun} {e : TcpServerEvent} {connection : Nat}
    (hserver : s.server.WellFormed s.nextId) (hrunning : s.running.isSome = true)
    (hstep : s.step e = some t) (hreturns : e ≠ .callbackReturns)
    (howned : connection ∈ s.server.owned) (hgone : connection ∉ t.server.owned) :
    e = .close ∨ (∃ bound, e = .listen bound)
      ∨ ∃ removed, e = .remove removed
        ∧ (removed = connection ∨ s.server.isValid connection = false) := by
  obtain ⟨henabled, hnext⟩ := Option.ite_none_right_eq_some.mp hstep
  obtain rfl := Option.some.inj hnext
  have hbusy : s.running.isNone = false := by
    cases hs : s.running with
    | none => rw [hs] at hrunning; cases hrunning
    | some _ => rfl
  cases e with
  | accept peer opened => simp [enabled, hbusy] at henabled
  | readable c => simp [enabled, hbusy] at henabled
  | writable c => simp [enabled, hbusy] at henabled
  | event c timeout error eof errno => simp [enabled, hbusy] at henabled
  | closeConnection c =>
      exact absurd ((LinuxTcpServer.closeConnection_owned s.server c).symm ▸ howned) hgone
  | use c => exact absurd howned hgone
  | close => exact Or.inl rfl
  | listen bound => exact Or.inr (Or.inl ⟨bound, rfl⟩)
  | callbackReturns => exact absurd rfl hreturns
  | remove removed =>
      refine Or.inr (Or.inr ⟨removed, rfl, ?_⟩)
      by_cases heq : removed = connection
      · exact Or.inl heq
      · refine Or.inr (Bool.eq_false_iff.mpr fun hvalid => hgone ?_)
        have hclosed := LinuxTcpServer.closeConnection_isValid.mpr ⟨Ne.symm heq, hvalid⟩
        have hswept := (hserver.closeConnection removed).sweepClosed_isValid.mpr hclosed
        exact LinuxTcpServer.owned_of_isValid hswept

/-! ### Runs -/

theorem next_log (s : TcpServerRun) (e : TcpServerEvent) : s.log <+: (s.next e).log := by
  have hnote : ∀ {u : TcpServerRun} (notes : List TcpServerNote), s.log <+: u.log →
      s.log <+: u.log ++ notes := fun notes h => h.trans (List.prefix_append _ _)
  have hself := List.prefix_refl s.log
  cases e with
  | accept peer opened =>
      have hcounted : s.log <+: s.sweepClosed.connectionCount.2.log :=
        hnote _ (hnote _ hself)
      simp only [next, acceptCallback]
      split
      · exact hnote _ hself
      · split
        · exact hnote _ hcounted
        · split
          · exact hnote _ hcounted
          · exact hnote _ (hnote _ hcounted)
  | readable connection =>
      simp only [next, readCallback]
      split <;> exact hnote _ (hnote _ hself)
  | writable connection =>
      simp only [next, writeCallback]
      split <;> exact hnote _ (hnote _ hself)
  | event connection timeout error eof errno =>
      simp only [next, eventCallback]
      split
      · exact hnote _ (hnote _ hself)
      · split
        · exact hnote _ (hnote _ hself)
        · split <;> exact hnote _ (hnote _ hself)
  | closeConnection connection => exact hnote _ hself
  | use connection => exact hnote _ hself
  | remove connection => exact hnote _ (hnote _ hself)
  | close => exact hnote _ hself
  | listen bound => exact hnote _ hself
  | callbackReturns =>
      simp only [next]
      cases s.running.getD .acceptCallback with
      | eventCallback connection => exact hnote _ (hnote _ hself)
      | acceptCallback => exact hnote _ hself
      | readCallback => exact hnote _ hself
      | writeCallback => exact hnote _ hself

/-- What went wrong stays in the log. -/
theorem step_not_memorySafe {s t : TcpServerRun} {e : TcpServerEvent}
    (h : ¬MemorySafe s.log) (hstep : s.step e = some t) : ¬MemorySafe t.log := by
  obtain ⟨-, hnext⟩ := Option.ite_none_right_eq_some.mp hstep
  obtain rfl := Option.some.inj hnext
  intro hsafe
  exact h (hsafe.sublist (next_log s e).sublist)

/-- **Destroyed connections are left alone exactly if no end is reported of one**: in a
run of the server, no member of a connection is read or written after the
connection was destroyed, if and only if no `on_close` and no `on_error` of the
handler returns with its connection destroyed. -/
theorem destroyed_untouched_iff {maxConnections : Nat} {events : List TcpServerEvent}
    {s : TcpServerRun} (hrun : run step (listening maxConnections) events = some s) :
    MemorySafe s.log
      ↔ run (restrict returnsAlive step) (listening maxConnections) events = some s := by
  have hstart : Sound (listening maxConnections) :=
    (alive_listening maxConnections).sound fun c hc => by cases hc
  exact run_blame (fun _ _ _ h hstep => Sound.step h hstep)
    (fun _ _ _ h hstep => step_not_memorySafe h hstep) (fun _ h => h.safe) (fun _ h => h)
    hstart hrun

/-- The server is closed by a handler that has data: both connections are destroyed,
and the trampoline goes on without them. -/
theorem destroyed_untouched_iff_run : ∃ s, run step (listening 2)
    [.accept {} true, .callbackReturns, .accept {} true, .callbackReturns, .readable 0, .close,
      .callbackReturns] = some s
    ∧ s.server.owned = [] ∧ MemorySafe s.log := by
  have hend : (run (restrict returnsAlive step) (listening 2)
      [.accept {} true, .callbackReturns, .accept {} true, .callbackReturns, .readable 0, .close,
        .callbackReturns]).map (fun s => s.server.owned) = some [] := rfl
  obtain ⟨s, hsame, howned⟩ := Option.map_eq_some_iff.mp hend
  have hrun := run_of_restrict hsame
  exact ⟨s, hrun, howned, (destroyed_untouched_iff hrun).mpr hsame⟩

/-- The peer closes a connection, and the handler closes the server when it is told:
the trampoline closes the connection that was destroyed. -/
theorem closed_after_destruction : ∃ s, run step (listening 1)
    [.accept {} true, .callbackReturns, .event 0 false false true 0, .close,
      .callbackReturns] = some s
    ∧ callbacksOf 0 s.log = [.onAccept {}, .onClose] ∧ ¬MemorySafe s.log := by
  refine ⟨_, rfl, rfl, ?_⟩
  change ¬MemorySafe ([.touched 0, .called (.onAccept {}) 0, .touched 0, .touched 0,
    .called .onClose 0, .touched 0, .destroyed 0] ++ [.touched 0, .closed 0])
  exact not_memorySafe (by simp) List.mem_cons_self

end TcpServerRun

end AsyncEventLoop
