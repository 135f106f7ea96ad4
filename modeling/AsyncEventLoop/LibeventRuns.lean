import AsyncEventLoop.LibeventLoop
import AsyncEventLoop.Runs

/-!
# Runs of the libevent scheduler

Tasks may call anything from their `poll`: a state keeps the records of
`LinuxLibeventLoop` and the polls that are executing, the innermost first,
each by the record it was made for. libevent may run any pending event at
any time, also while a poll is executing, which is more than it does: a
nested `event_base_loop` runs nothing.

Records are freed by compaction alone, and the depth of callbacks keeps it
away while a poll is executing. So the record of a poll is there when the
poll returns (`Inv.held`), and between polls no marked record is left
(`Inv.swept`).
-/

namespace AsyncEventLoop

open Runs

namespace LibeventLoop

/-! ## The loop that frees -/

/-- The loop of `compact_removed_timer_events` and its twin from the iterator on;
each turn erases a record or moves on. -/
def eraseRemoved : Nat → Nat → List NativeEvent → List NativeEvent
  | 0, _, events => events
  | turns + 1, i, events =>
      match events[i]? with
      | some e =>
          if e.removed then eraseRemoved turns i (events.eraseIdx i)
          else eraseRemoved turns (i + 1) events
      | none => events

theorem eraseRemoved_eq {turns i : Nat} {events : List NativeEvent}
    (hi : i + turns = events.length) :
    eraseRemoved turns i events = events.take i ++ (events.drop i).filter fun e => !e.removed := by
  induction turns generalizing i events with
  | zero =>
      rw [List.drop_of_length_le (by omega), List.take_of_length_le (by omega), eraseRemoved]
      simp
  | succ turns ih =>
      have hlt : i < events.length := by omega
      rw [eraseRemoved, List.getElem?_eq_getElem hlt, List.drop_eq_getElem_cons hlt]
      dsimp only
      by_cases hremoved : events[i].removed = true
      · have htake : (events.take i).length = i := by
          rw [List.length_take]
          omega
        rw [if_pos hremoved, ih (by rw [List.length_eraseIdx_of_lt hlt]; omega),
          List.eraseIdx_eq_take_drop_succ, List.take_left' htake, List.drop_left' htake,
          List.filter_cons_of_neg (by simp [hremoved])]
      · rw [if_neg hremoved, ih (by omega), List.filter_cons_of_pos (by simp [hremoved]),
          List.append_cons, List.take_append_getElem]

/-- Compaction keeps what is not marked, in order, and nothing else. -/
theorem eraseRemoved_filter (events : List NativeEvent) :
    eraseRemoved events.length 0 events = events.filter fun e => !e.removed := by
  rw [eraseRemoved_eq (Nat.zero_add _), List.take_zero, List.drop_zero, List.nil_append]

theorem compactRemovedEvents_eq (l : LibeventLoop) :
    l.compactRemovedEvents
      = if l.callbackDepth ≠ 0 then l
        else { l with
          periodicEvents := eraseRemoved l.periodicEvents.length 0 l.periodicEvents
          oneShotEvents := eraseRemoved l.oneShotEvents.length 0 l.oneShotEvents
          fdEvents := eraseRemoved l.fdEvents.length 0 l.fdEvents } := by
  rw [eraseRemoved_filter, eraseRemoved_filter, eraseRemoved_filter]
  rfl

/-! ## Removals -/

/-- A call of `remove` or of `remove_fd`. -/
inductive Removal where
  | task (task : Nat)
  | fd (fd : Int) (task : Nat)

namespace Removal

def perform (r : Removal) (l : LibeventLoop) : Bool × LibeventLoop :=
  match r with
  | .task t => l.remove t
  | .fd d t => l.removeFd d t

/-- The records it is about. -/
def hits (r : Removal) (e : NativeEvent) : Bool :=
  match r with
  | .task t => e.task = some t
  | .fd d t => e.onFd d && e.task = some t

def mark (r : Removal) (e : NativeEvent) : NativeEvent :=
  if r.hits e then { e with removed := true, task := none } else e

end Removal

/-- Timers are in the lists of timers. -/
def Sorted (l : LibeventLoop) : Prop :=
  ∀ e, e ∈ l.periodicEvents ∨ e ∈ l.oneShotEvents → e.isTimer = true

theorem onFd_timer {e : NativeEvent} (h : e.isTimer = true) (fd : Int) : e.onFd fd = false := by
  unfold NativeEvent.isTimer at h
  unfold NativeEvent.onFd
  cases hsource : e.source with
  | timer => rfl
  | fd fd' w =>
      rw [hsource] at h
      cases h

/-- Both kinds of removal mark the records they are about and compact. -/
theorem perform_removal {l : LibeventLoop} (h : Sorted l) (r : Removal) :
    r.perform l = (l.events.any r.hits, (l.mapEvents r.mark).compactRemovedEvents) := by
  cases r with
  | task t =>
      have hmark : (Removal.task t).mark = NativeEvent.markedFor t := by
        funext e
        simp [Removal.mark, Removal.hits, NativeEvent.markedFor]
      rw [hmark, events, List.any_append, List.any_append]
      rfl
  | fd fd t =>
      have hmark : (Removal.fd fd t).mark = NativeEvent.markedForFd fd t := rfl
      have hmiss : ∀ e, e ∈ l.periodicEvents ∨ e ∈ l.oneShotEvents →
          (Removal.fd fd t).hits e = false := fun e he => by
        simp [Removal.hits, onFd_timer (h e he)]
      have hkeep : ∀ es : List NativeEvent, (∀ e ∈ es, (Removal.fd fd t).hits e = false) →
          es.map (NativeEvent.markedForFd fd t) = es ∧ es.any (Removal.fd fd t).hits = false := by
        intro es hes
        refine ⟨?_, ?_⟩
        · rw [List.map_congr_left fun e he => ?_, List.map_id]
          exact if_neg (by simpa [Removal.hits] using hes e he)
        · rw [List.any_eq_false]
          exact fun e he => by simp [hes e he]
      obtain ⟨hperiodic, hany⟩ := hkeep l.periodicEvents fun e he => hmiss e (Or.inl he)
      obtain ⟨honce, hany'⟩ := hkeep l.oneShotEvents fun e he => hmiss e (Or.inr he)
      rw [hmark]
      simp only [Removal.perform, removeFd, events, List.any_append, mapEvents, hperiodic, honce,
        hany, hany', Bool.false_or]
      rfl

/-! ## What becomes of a record -/

/-- The record stays what it is, where `Fades` leaves its source open. -/
structure Becomes (e e' : NativeEvent) : Prop extends Fades e e' where
  onFd : ∀ fd, e'.onFd fd = e.onFd fd
  timer : e'.isTimer = e.isTimer

theorem Becomes.refl (e : NativeEvent) : Becomes e e := ⟨Fades.refl e, fun _ => rfl, rfl⟩

theorem Becomes.trans {a b c : NativeEvent} (h : Becomes a b) (h' : Becomes b c) : Becomes a c :=
  ⟨h.toFades.trans h'.toFades, fun fd => (h'.onFd fd).trans (h.onFd fd),
    h'.timer.trans h.timer⟩

/-- A removal is not about a record any more than before. -/
theorem Becomes.hits {e e' : NativeEvent} (h : Becomes e e') {r : Removal}
    (hits : r.hits e' = true) : r.hits e = true := by
  have htask : ∀ t, e'.task = some t → e.task = some t := fun t ht => by
    rcases h.task with heq | hnone
    · exact heq ▸ ht
    · rw [hnone] at ht
      cases ht
  cases r with
  | task t => simpa [Removal.hits] using htask t (by simpa [Removal.hits] using hits)
  | fd d t =>
      simp only [Removal.hits, Bool.and_eq_true, decide_eq_true_eq] at hits ⊢
      exact ⟨h.onFd d ▸ hits.1, htask t hits.2⟩

/-- A mark stays. -/
theorem removed_of_becomes {l l' : LibeventLoop} (h : Tidy l) (h' : Tidy l') {e e' : NativeEvent}
    (he : e ∈ l.events) (he' : e' ∈ l'.events) (hb : Becomes e e') (hremoved : e.removed = true) :
    e'.removed = true := by
  have hnone : e.task = none := by
    rw [h e he, Option.isNone_iff_eq_none] at hremoved
    exact hremoved
  rw [h' e' he', Option.isNone_iff_eq_none]
  rcases hb.task with heq | hnone'
  · rw [heq, hnone]
  · exact hnone'

theorem mark_becomes (r : Removal) (e : NativeEvent) : Becomes e (r.mark e) := by
  unfold Removal.mark
  split
  · exact ⟨⟨rfl, rfl, Or.inr rfl, fun _ h => h⟩, fun _ => rfl, rfl⟩
  · exact Becomes.refl e

theorem mark_removed (r : Removal) {e : NativeEvent} (h : e.removed = e.task.isNone) :
    (r.mark e).removed = (r.mark e).task.isNone := by
  unfold Removal.mark
  split
  · rfl
  · exact h

/-- What was hit has lost its task. -/
theorem mark_hit (r : Removal) {e : NativeEvent} (h : r.hits e = true) :
    (r.mark e).task = none := by
  rw [Removal.mark, if_pos h]

theorem mark_unhit (r : Removal) (e : NativeEvent) : r.hits (r.mark e) = false := by
  unfold Removal.mark
  split
  · cases r <;> simp [Removal.hits]
  · rename_i h
    simpa using h

theorem activated_becomes (e : NativeEvent) : Becomes e e.activated := by
  refine ⟨activated_fades e, fun fd => ?_, ?_⟩ <;>
    unfold NativeEvent.activated <;> split <;> rfl

theorem afterPoll_becomes (env : NativeEnv) (e : NativeEvent) : Becomes e (e.afterPoll env) := by
  refine ⟨afterPoll_fades env e, fun fd => ?_, ?_⟩ <;> unfold NativeEvent.afterPoll <;> split
  · rename_i hsource
    split
    · simp [NativeEvent.onFd, hsource]
    · split <;> rfl
  · rfl
  · rename_i hsource
    split
    · simp [NativeEvent.isTimer, hsource]
    · split <;> rfl
  · rfl

/-- A one-shot is marked behind its `poll`. -/
theorem afterPoll_once (env : NativeEnv) {e : NativeEvent} (h : e.once = true) :
    (e.afterPoll env).removed = true := by
  unfold NativeEvent.once at h
  unfold NativeEvent.afterPoll
  split at h
  · rename_i hsource
    rw [hsource]
    simp_all
  · cases h

theorem modify_becomes {f : NativeEvent → NativeEvent} (hf : ∀ e, Becomes e (f e)) (reg : Nat)
    (e : NativeEvent) : Becomes e (if e.reg = reg then f e else e) := by
  split
  · exact hf e
  · exact Becomes.refl e

/-- The records after an operation: each comes from one before or is the one that
is registered, `added`; the lists stay sorted, and between callbacks no marked
record is left. -/
structure Effect (l l' : LibeventLoop) (added : Option NativeEvent) : Prop where
  old : ∀ e' ∈ l'.events, (∃ e ∈ l.events, Becomes e e') ∨ added = some e'
  sorted : Sorted l → Sorted l'

theorem map_effect (l : LibeventLoop) {f : NativeEvent → NativeEvent} (hf : ∀ e, Becomes e (f e)) :
    Effect l (l.mapEvents f) none := by
  refine ⟨?_, ?_⟩
  · intro e' he'
    rw [mapEvents_events, List.mem_map] at he'
    obtain ⟨e, he, rfl⟩ := he'
    exact Or.inl ⟨e, he, hf e⟩
  · intro h e' he'
    simp only [mapEvents, List.mem_map] at he'
    rcases he' with ⟨e, he, rfl⟩ | ⟨e, he, rfl⟩
    · exact (hf e).timer.trans (h e (Or.inl he))
    · exact (hf e).timer.trans (h e (Or.inr he))

theorem compact_effect (l : LibeventLoop) : Effect l l.compactRemovedEvents none := by
  refine ⟨fun e he => Or.inl ⟨e, (mem_compactRemovedEvents.mp he).1, Becomes.refl e⟩,
    ?_⟩
  intro h e he
  unfold compactRemovedEvents at he
  split at he
  · exact h e he
  · simp only [List.mem_filter] at he
    exact h e (he.imp And.left And.left)

theorem Effect.trans {l m l' : LibeventLoop} {added : Option NativeEvent} (h : Effect l m none)
    (h' : Effect m l' added) : Effect l l' added := by
  refine ⟨?_, h'.sorted ∘ h.sorted⟩
  intro e' he'
  rcases h'.old e' he' with ⟨e, he, hbecomes⟩ | hadded
  · obtain ⟨d, hd, hbecomes'⟩ := (h.old e he).resolve_right nofun
    exact Or.inl ⟨d, hd, hbecomes'.trans hbecomes⟩
  · exact Or.inr hadded

theorem Adds.effect {l : LibeventLoop} {r : Bool × LibeventLoop} {item : NativeEvent}
    (h : Adds l r item) (hsorted : Sorted l.compactRemovedEvents → Sorted r.2) :
    Effect l r.2 (if r.1 then some item else none) := by
  refine ⟨?_, hsorted ∘ (compact_effect l).sorted⟩
  intro e he
  rcases (h.mem e).mp he with he | ⟨hok, rfl⟩
  · exact (compact_effect l).old e he |>.imp_right nofun
  · exact Or.inr (if_pos hok)

theorem addPeriodic_sorted {l : LibeventLoop} (task : Nat) (periodUs : UInt64) (reg : Nat)
    (env : NativeEnv) (h : Sorted l.compactRemovedEvents) :
    Sorted (l.addPeriodic task periodUs reg env).2 := by
  unfold addPeriodic
  dsimp only
  split
  · exact h
  · intro e he
    simp only [List.mem_append, List.mem_singleton] at he
    rcases he with (he | rfl) | he
    · exact h e (Or.inl he)
    · rfl
    · exact h e (Or.inr he)

theorem addOneShot_sorted {l : LibeventLoop} (task : Nat) (dueUs : UInt64) (reg : Nat)
    (env : NativeEnv) (h : Sorted l.compactRemovedEvents) :
    Sorted (l.addOneShot task dueUs reg env).2 := by
  unfold addOneShot
  dsimp only
  split
  · exact h
  · intro e he
    simp only [List.mem_append, List.mem_singleton] at he
    rcases he with he | he | rfl
    · exact h e (Or.inl he)
    · exact h e (Or.inr he)
    · rfl

theorem addFd_sorted {l : LibeventLoop} (fd : Int) (writable : Bool) (task reg : Nat)
    (env : NativeEnv) (h : Sorted l) : Sorted (l.addFd fd writable task reg env).2 := by
  unfold addFd
  split <;> exact h

theorem activate_effect (l : LibeventLoop) (reg : Nat) : Effect l (l.activate reg) none :=
  map_effect l (modify_becomes activated_becomes reg)

theorem activated_removed (reg : Nat) (e : NativeEvent) :
    (if e.reg = reg then e.activated else e).removed = e.removed := by
  split
  · unfold NativeEvent.activated
    split <;> rfl
  · rfl

/-- The records behind a `poll`. -/
theorem mem_afterPoll {l : LibeventLoop} {reg : Nat} {env : NativeEnv} {e' : NativeEvent} :
    e' ∈ (l.afterPoll reg env).events
      ↔ (∃ e ∈ l.events, (if e.reg = reg then e.afterPoll env else e) = e')
        ∧ (l.callbackDepth - 1 = 0 → e'.removed = false) := by
  rw [afterPoll, mem_compactRemovedEvents, modify, mapEvents_events, List.mem_map]
  rfl

theorem afterPoll_sorted (l : LibeventLoop) (reg : Nat) (env : NativeEnv) (h : Sorted l) :
    Sorted (l.afterPoll reg env) := by
  have hleft : Sorted l.leaveCallback := h
  exact (compact_effect _).sorted
    ((map_effect l.leaveCallback (modify_becomes (afterPoll_becomes env) reg)).sorted hleft)

end LibeventLoop

/-! ## Steps -/

/-- What a run is observed by: a one-shot that was registered, and a `poll`, each
by its record. -/
inductive LibeventNote where
  | oneShot (reg : Nat)
  | polled (reg : Nat)
  deriving DecidableEq

def LibeventNote.reg : LibeventNote → Nat
  | oneShot reg => reg
  | polled reg => reg

/-- `frames` are the polls that are executing, by the records they were made for. -/
structure LibeventState where
  loop : LibeventLoop
  frames : List Nat := []
  nextReg : Nat := 0
  log : List LibeventNote := []

/-- `endRunOnce` is what follows `event_base_loop` in `run_once` and
`run_forever`. -/
inductive LibeventEvent where
  | addPeriodic (task : Nat) (periodUs : UInt64) (env : NativeEnv)
  | addOneShot (task : Nat) (dueUs : UInt64) (env : NativeEnv)
  | addReadableFd (fd : Int) (task : Nat) (env : NativeEnv)
  | addWritableFd (fd : Int) (task : Nat) (env : NativeEnv)
  | remove (r : LibeventLoop.Removal)
  | endRunOnce
  | dispatch (reg : Nat)
  | pollReturns (env : NativeEnv)

namespace LibeventState

open LibeventLoop

def fresh (base : Bool) : LibeventState := { loop := { base := base } }

/-- How often the record's task has been polled for it. -/
def polls (log : List LibeventNote) (reg : Nat) : Nat := log.count (.polled reg)

def step (s : LibeventState) : LibeventEvent → Option LibeventState
  | .addPeriodic task periodUs env =>
      some { s with
        loop := (s.loop.addPeriodic task periodUs s.nextReg env).2, nextReg := s.nextReg + 1 }
  | .addOneShot task dueUs env =>
      let r := s.loop.addOneShot task dueUs s.nextReg env
      some { s with
        loop := r.2
        nextReg := s.nextReg + 1
        log := if r.1 then .oneShot s.nextReg :: s.log else s.log }
  | .addReadableFd fd task env =>
      some { s with
        loop := (s.loop.addReadableFd fd task s.nextReg env).2, nextReg := s.nextReg + 1 }
  | .addWritableFd fd task env =>
      some { s with
        loop := (s.loop.addWritableFd fd task s.nextReg env).2, nextReg := s.nextReg + 1 }
  | .remove r => some { s with loop := (r.perform s.loop).2 }
  | .endRunOnce => some { s with loop := s.loop.endRunOnce }
  | .dispatch reg =>
      (s.loop.pendingEvent reg).map fun item =>
        let l := s.loop.activate reg
        if item.removed || item.task.isNone then { s with loop := l }
        else
          { s with
            loop := l.enterCallback, frames := reg :: s.frames, log := .polled reg :: s.log }
  | .pollReturns env =>
      match s.frames with
      | reg :: rest => some { s with loop := s.loop.afterPoll reg env, frames := rest }
      | [] => none

/-! ## The invariant -/

structure Inv (s : LibeventState) : Prop where
  numbered : s.loop.Numbered s.nextReg
  sorted : s.loop.Sorted
  tidy : s.loop.Tidy
  depth : s.loop.callbackDepth = s.frames.length
  held : ∀ reg ∈ s.frames, ∃ e ∈ s.loop.events, e.reg = reg
  swept : s.loop.callbackDepth = 0 → ∀ e ∈ s.loop.events, e.removed = false
  fresh : ∀ note ∈ s.log, note.reg < s.nextReg
  unfired : ∀ e ∈ s.loop.events, e.once = true → e.pending = true → polls s.log e.reg = 0
  fired : ∀ e ∈ s.loop.events, e.once = true → 0 < polls s.log e.reg →
    e.removed = true ∨ e.reg ∈ s.frames
  once : ∀ reg, .oneShot reg ∈ s.log →
    polls s.log reg ≤ 1 ∧ ∀ e ∈ s.loop.events, e.reg = reg → e.once = true

theorem inv_fresh (base : Bool) : Inv (fresh base) := by
  have hnone : ∀ e, e ∉ (fresh base).loop.events := fun e => List.not_mem_nil
  have hsorted : (fresh base).loop.Sorted := fun e he => (List.not_mem_nil (or_self_iff.mp he)).elim
  refine ⟨⟨fun e he => absurd he (hnone e), fun e he => absurd he (hnone e)⟩, hsorted,
    fun e he => absurd he (hnone e), rfl, List.forall_mem_nil _,
    fun _ e he => absurd he (hnone e), List.forall_mem_nil _, fun e he => absurd he (hnone e),
    fun e he => absurd he (hnone e), fun reg hreg => absurd hreg List.not_mem_nil⟩

theorem polls_fresh {log : List LibeventNote} {bound reg : Nat}
    (h : ∀ note ∈ log, note.reg < bound) (hreg : bound ≤ reg) : polls log reg = 0 :=
  List.count_eq_zero.mpr fun hmem => absurd (h _ hmem) (Nat.not_lt.mpr hreg)

/-- The record of a `poll` is there behind an operation that ends no `poll`. -/
theorem Inv.stillHeld {s : LibeventState} (h : Inv s) {l : LibeventLoop} {bound : Nat}
    (hevolves : Evolves s.loop l s.nextReg bound)
    (hdepth : l.callbackDepth = s.loop.callbackDepth) :
    ∀ reg ∈ s.frames, ∃ e ∈ l.events, e.reg = reg := by
  intro reg hreg
  obtain ⟨e, he, rfl⟩ := h.held reg hreg
  have hbusy : l.callbackDepth ≠ 0 := by
    rw [hdepth, h.depth]
    exact Nat.ne_of_gt (List.length_pos_of_mem hreg)
  obtain ⟨e', he', hfades⟩ := hevolves.held hbusy e he
  exact ⟨e', he', hfades.reg⟩

theorem Inv.unfired_becomes {s : LibeventState} (h : Inv s) {e e' : NativeEvent}
    (he : e ∈ s.loop.events) (hb : Becomes e e') (ho : e'.once = true) (hp : e'.pending = true) :
    polls s.log e'.reg = 0 := by
  have ho' := hb.once.symm.trans ho
  rw [hb.reg]
  exact h.unfired e he ho' (hb.pending ho' hp)

theorem Inv.fired_becomes {s : LibeventState} (h : Inv s) {l : LibeventLoop} (htidy : l.Tidy)
    {e e' : NativeEvent} (he : e ∈ s.loop.events) (he' : e' ∈ l.events) (hb : Becomes e e')
    (ho : e'.once = true) (hpolled : 0 < polls s.log e'.reg) :
    e'.removed = true ∨ e'.reg ∈ s.frames := by
  rw [hb.reg] at hpolled ⊢
  refine (h.fired e he (hb.once.symm.trans ho) hpolled).imp_left ?_
  intro hremoved
  exact removed_of_becomes h.tidy htidy he he' hb hremoved

/-- An operation that starts no `poll` and ends none. -/
theorem Inv.evolves {s : LibeventState} (h : Inv s) {l : LibeventLoop}
    (hevolves : Evolves s.loop l s.nextReg s.nextReg) (heffect : Effect s.loop l none)
    (htidy : l.Tidy) (hdepth : l.callbackDepth = s.loop.callbackDepth)
    (hswept : l.callbackDepth = 0 → ∀ e ∈ l.events, e.removed = false) :
    Inv { s with loop := l } := by
  have hold : ∀ e' ∈ l.events, ∃ e ∈ s.loop.events, Becomes e e' := fun e' he' =>
    (heffect.old e' he').resolve_right nofun
  refine ⟨hevolves.numbered h.numbered, heffect.sorted h.sorted, htidy, hdepth.trans h.depth,
    h.stillHeld hevolves hdepth, hswept, h.fresh, ?_, ?_,
    fun reg hnote => ⟨(h.once reg hnote).1, ?_⟩⟩
  · intro e' he' ho hp
    obtain ⟨e, he, hb⟩ := hold e' he'
    exact h.unfired_becomes he hb ho hp
  · intro e' he' ho hpolls
    obtain ⟨e, he, hb⟩ := hold e' he'
    exact h.fired_becomes htidy he he' hb ho hpolls
  · intro e' he' hreg
    obtain ⟨e, he, hb⟩ := hold e' he'
    exact hb.once.trans ((h.once reg hnote).2 e he (hb.reg.symm.trans hreg))

/-- A registration, accepted or refused. -/
theorem Inv.adds {s : LibeventState} (h : Inv s) {r : Bool × LibeventLoop} {item : NativeEvent}
    (hadds : Adds s.loop r item) (hreg : item.reg = s.nextReg) {task : Nat}
    (htask : item.task = some task) (hkept : item.removed = false)
    (hsorted : s.loop.compactRemovedEvents.Sorted → r.2.Sorted) {o : Bool}
    (honce : o = true → item.once = true) :
    Inv { s with
      loop := r.2
      nextReg := s.nextReg + 1
      log := if o then .oneShot s.nextReg :: s.log else s.log } := by
  have heffect := hadds.effect hsorted
  have hevolves := hreg ▸ hadds.evolves
  have htidy := (hadds.schedules h.tidy rfl htask rfl hkept).ok
  have hold : ∀ e' ∈ r.2.events, (∃ e ∈ s.loop.events, Becomes e e') ∨ e' = item := fun e' he' => by
    refine (heffect.old e' he').imp_right ?_
    intro hadded
    split at hadded
    · exact (Option.some.inj hadded).symm
    · cases hadded
  have hpolls : ∀ reg, polls (if o then .oneShot s.nextReg :: s.log else s.log) reg
      = polls s.log reg := fun reg => by
    split
    · exact List.count_cons_of_ne (by simp)
    · rfl
  have hnew : polls s.log item.reg = 0 := polls_fresh h.fresh (Nat.le_of_eq hreg.symm)
  -- a one-shot noted under an older number was noted before
  have hprior : ∀ reg, reg < s.nextReg →
      .oneShot reg ∈ (if o then .oneShot s.nextReg :: s.log else s.log) →
      .oneShot reg ∈ s.log := by
    intro reg hlt hnote
    split at hnote
    · refine List.mem_of_ne_of_mem ?_ hnote
      intro hsame
      rw [LibeventNote.oneShot.inj hsame] at hlt
      exact absurd hlt (Nat.lt_irrefl _)
    · exact hnote
  constructor
  case numbered => exact hevolves.numbered h.numbered
  case sorted => exact heffect.sorted h.sorted
  case tidy => exact htidy
  case depth => exact hadds.depth.trans h.depth
  case held => exact h.stillHeld hevolves hadds.depth
  case swept =>
    intro hdepth e' he'
    rcases (hadds.mem e').mp he' with hcompact | ⟨-, rfl⟩
    · exact (mem_compactRemovedEvents.mp hcompact).2 (hadds.depth ▸ hdepth)
    · exact hkept
  case fresh =>
    intro note hnote
    split at hnote
    · rcases List.mem_cons.mp hnote with rfl | hnote
      · exact Nat.lt_succ_self _
      · exact Nat.lt_succ_of_lt (h.fresh note hnote)
    · exact Nat.lt_succ_of_lt (h.fresh note hnote)
  case unfired =>
    intro e' he' ho hp
    dsimp only
    rw [hpolls]
    rcases hold e' he' with ⟨e, he, hb⟩ | rfl
    · exact h.unfired_becomes he hb ho hp
    · exact hnew
  case fired =>
    intro e' he' ho hpolled
    dsimp only at hpolled ⊢
    rw [hpolls] at hpolled
    rcases hold e' he' with ⟨e, he, hb⟩ | rfl
    · exact h.fired_becomes htidy he he' hb ho hpolled
    · rw [hnew] at hpolled
      exact absurd hpolled (Nat.lt_irrefl 0)
  case once =>
    intro reg hnote
    constructor
    · dsimp only
      rw [hpolls]
      by_cases hlt : reg < s.nextReg
      · exact (h.once reg (hprior reg hlt hnote)).1
      · rw [polls_fresh h.fresh (Nat.le_of_not_lt hlt)]
        exact Nat.zero_le 1
    · intro e' he' heq
      rcases hold e' he' with ⟨e, he, hb⟩ | rfl
      · have hlt : reg < s.nextReg := by
          rw [← heq, hb.reg]
          exact h.numbered.fresh e he
        exact hb.once.trans ((h.once reg (hprior reg hlt hnote)).2 e he (hb.reg.symm.trans heq))
      · refine honce ?_
        cases o with
        | true => rfl
        | false =>
            have hlt := h.fresh _ hnote
            rw [LibeventNote.reg, ← heq, hreg] at hlt
            exact absurd hlt (Nat.lt_irrefl _)

/-- The record that libevent runs is polled. -/
theorem Inv.poll {s : LibeventState} (h : Inv s) {item : NativeEvent}
    (hitem : item ∈ s.loop.events) (hpending : item.pending = true) :
    Inv { s with
      loop := (s.loop.activate item.reg).enterCallback
      frames := item.reg :: s.frames
      log := .polled item.reg :: s.log } := by
  have heffect := s.loop.activate_effect item.reg
  have hold : ∀ e' ∈ (s.loop.activate item.reg).events, ∃ e ∈ s.loop.events, Becomes e e'
      ∧ (e.reg = item.reg → e' = item.activated) := fun e' he' => by
    obtain ⟨e, he, rfl⟩ := mem_activate.mp he'
    refine ⟨e, he, modify_becomes activated_becomes item.reg e, ?_⟩
    intro hreg
    rw [if_pos hreg, h.numbered.unique e he item hitem hreg]
  have hkept : ∀ e ∈ s.loop.events, ∃ e' ∈ (s.loop.activate item.reg).events, e'.reg = e.reg :=
    fun e he => ⟨_, mem_activate.mpr ⟨e, he, rfl⟩,
      (modify_becomes activated_becomes item.reg e).reg⟩
  have hother : ∀ {reg}, reg ≠ item.reg → polls (.polled item.reg :: s.log) reg = polls s.log reg :=
    fun hne => List.count_cons_of_ne fun heq => hne (LibeventNote.polled.inj heq).symm
  obtain ⟨hunique, hbound⟩ := (s.loop.activate_evolves item.reg s.nextReg).numbered h.numbered
  refine ⟨⟨hunique, hbound⟩, heffect.sorted h.sorted, Tidy.activate h.tidy item.reg,
    congrArg Nat.succ h.depth, ?_, fun hdepth => absurd hdepth (Nat.succ_ne_zero _),
    ?_, ?_, ?_,
    ?_⟩
  · intro reg hreg
    rcases List.mem_cons.mp hreg with rfl | hreg
    · exact hkept item hitem
    · obtain ⟨e, he, rfl⟩ := h.held reg hreg
      exact hkept e he
  · intro note hnote
    rcases List.mem_cons.mp hnote with rfl | hnote
    · exact h.numbered.fresh item hitem
    · exact h.fresh note hnote
  · intro e' he' ho hp
    obtain ⟨e, he, hb, hitem'⟩ := hold e' he'
    have ho' := hb.once.symm.trans ho
    by_cases hreg : e.reg = item.reg
    · obtain rfl := h.numbered.unique e he item hitem hreg
      rw [hitem' rfl, NativeEvent.activated_pending ho'] at hp
      cases hp
    · dsimp only
      rw [hother (hb.reg ▸ hreg)]
      exact h.unfired_becomes he hb ho hp
  · intro e' he' ho hpolled
    obtain ⟨e, he, hb, -⟩ := hold e' he'
    dsimp only at hpolled ⊢
    by_cases hreg : e'.reg = item.reg
    · exact Or.inr (hreg ▸ List.mem_cons_self ..)
    · rw [hother hreg] at hpolled
      exact (h.fired_becomes (Tidy.activate h.tidy item.reg) he he' hb ho hpolled).imp_right
        (List.mem_cons_of_mem _)
  · intro reg hnote
    have hnote : .oneShot reg ∈ s.log := by simpa using hnote
    obtain ⟨hle, honce⟩ := h.once reg hnote
    refine ⟨?_, ?_⟩
    · dsimp only
      by_cases hreg : reg = item.reg
      · subst hreg
        have hzero := h.unfired item hitem (honce item hitem rfl) hpending
        simp only [polls, List.count_cons_self] at hzero ⊢
        omega
      · rw [hother hreg]
        exact hle
    · intro e' he' heq
      obtain ⟨e, he, hb, -⟩ := hold e' he'
      exact hb.once.trans (honce e he (hb.reg.symm.trans heq))

/-- The innermost `poll` returns. -/
theorem Inv.returns {s : LibeventState} (h : Inv s) {reg : Nat} {rest : List Nat}
    (hframes : s.frames = reg :: rest) (env : NativeEnv) :
    Inv { s with loop := s.loop.afterPoll reg env, frames := rest } := by
  have hevolves := s.loop.afterPoll_evolves reg s.nextReg env
  have htidy := Tidy.afterPoll h.tidy reg env
  have hdepth : (s.loop.afterPoll reg env).callbackDepth = rest.length := by
    rw [afterPoll_depth, h.depth, hframes]
    rfl
  have hold : ∀ e' ∈ (s.loop.afterPoll reg env).events, ∃ e ∈ s.loop.events, Becomes e e'
      ∧ (e.reg = reg → e' = e.afterPoll env) := fun e' he' => by
    obtain ⟨⟨e, he, rfl⟩, -⟩ := mem_afterPoll.mp he'
    exact ⟨e, he, modify_becomes (afterPoll_becomes env) reg e, fun hreg => if_pos hreg⟩
  refine ⟨hevolves.numbered h.numbered, s.loop.afterPoll_sorted reg env h.sorted, htidy, hdepth,
    ?_, ?_, h.fresh, ?_,
    ?_, fun reg' hnote => ⟨(h.once reg' hnote).1, ?_⟩⟩
  · intro reg' hreg'
    obtain ⟨e, he, rfl⟩ := h.held reg' (hframes ▸ List.mem_cons_of_mem _ hreg')
    have hbusy : (s.loop.afterPoll reg env).callbackDepth ≠ 0 := by
      rw [hdepth]
      exact Nat.ne_of_gt (List.length_pos_of_mem hreg')
    obtain ⟨e', he', hfades⟩ := hevolves.held hbusy e he
    exact ⟨e', he', hfades.reg⟩
  · intro hzero e' he'
    rw [afterPoll_depth] at hzero
    exact (mem_afterPoll.mp he').2 hzero
  · intro e' he' ho hp
    obtain ⟨e, he, hb, -⟩ := hold e' he'
    exact h.unfired_becomes he hb ho hp
  · intro e' he' ho hpolled
    obtain ⟨e, he, hb, hreturned⟩ := hold e' he'
    rcases h.fired_becomes htidy he he' hb ho hpolled with hremoved | hframe
    · exact Or.inl hremoved
    · rw [hframes] at hframe
      rcases List.mem_cons.mp hframe with hreg | hframe
      · have ho' := hb.once.symm.trans ho
        exact Or.inl (hreturned (hb.reg.symm.trans hreg) ▸ afterPoll_once env ho')
      · exact Or.inr hframe
  · intro e' he' heq
    obtain ⟨e, he, hb, -⟩ := hold e' he'
    exact hb.once.trans ((h.once reg' hnote).2 e he (hb.reg.symm.trans heq))

/-- A compaction, or nothing. -/
theorem Inv.compact {s : LibeventState} (h : Inv s) :
    Inv { s with loop := s.loop.compactRemovedEvents } :=
  h.evolves (compact_evolves _ _) (compact_effect _) (Tidy.compact h.tidy)
    (compactRemovedEvents_depth _) fun hdepth _ he =>
      (mem_compactRemovedEvents.mp he).2 (compactRemovedEvents_depth _ ▸ hdepth)

theorem Inv.removal {s : LibeventState} (h : Inv s) (r : Removal) :
    Inv { s with loop := (r.perform s.loop).2 } := by
  rw [perform_removal h.sorted]
  have hmap := s.loop.map_effect (mark_becomes r)
  refine h.evolves
    (map_evolves s.loop (fun e => (mark_becomes r e).toFades) s.nextReg).compact
    (hmap.trans (compact_effect _)) (Tidy.compact (h.tidy.map fun _ => mark_removed r))
    (compactRemovedEvents_depth _) ?_
  intro hdepth e he
  exact (mem_compactRemovedEvents.mp he).2 (compactRemovedEvents_depth _ ▸ hdepth)

/-- **The step lemma.** -/
theorem step_inv {s s' : LibeventState} {e : LibeventEvent} (h : Inv s)
    (hstep : step s e = some s') : Inv s' := by
  cases e with
  | addPeriodic task periodUs env =>
      obtain rfl := Option.some.inj hstep
      exact h.adds (o := false) (s.loop.addPeriodic_adds task periodUs s.nextReg env) rfl rfl
        rfl (addPeriodic_sorted task periodUs s.nextReg env) nofun
  | addOneShot task dueUs env =>
      obtain rfl := Option.some.inj hstep
      exact h.adds (s.loop.addOneShot_adds task dueUs s.nextReg env) rfl rfl rfl
        (addOneShot_sorted task dueUs s.nextReg env) fun _ => rfl
  | addReadableFd fd task env =>
      obtain rfl := Option.some.inj hstep
      exact h.adds (o := false) (s.loop.addFd_adds fd false task s.nextReg env) rfl rfl rfl
        (addFd_sorted fd false task s.nextReg env) nofun
  | addWritableFd fd task env =>
      obtain rfl := Option.some.inj hstep
      exact h.adds (o := false) (s.loop.addFd_adds fd true task s.nextReg env) rfl rfl rfl
        (addFd_sorted fd true task s.nextReg env) nofun
  | remove r =>
      obtain rfl := Option.some.inj hstep
      exact h.removal r
  | endRunOnce =>
      obtain rfl := Option.some.inj hstep
      unfold endRunOnce
      split
      · exact h.compact
      · exact h
  | dispatch reg =>
      obtain ⟨item, hfound, rfl⟩ := Option.map_eq_some_iff.mp hstep
      obtain ⟨hitem, rfl, hpending⟩ := pendingEvent_spec hfound
      dsimp only
      split
      · exact h.evolves (activate_evolves _ _ _) (activate_effect _ _)
          (Tidy.activate h.tidy item.reg) rfl fun hdepth e' he' => by
            obtain ⟨e, he, rfl⟩ := mem_activate.mp he'
            exact (activated_removed item.reg e).trans (h.swept hdepth e he)
      · exact h.poll hitem hpending
  | pollReturns env =>
      simp only [step] at hstep
      split at hstep
      · rename_i reg rest hframes
        obtain rfl := Option.some.inj hstep
        exact h.returns hframes env
      · cases hstep

/-! ## Behind a removal -/

/-- The event registers a record that the removal is about. -/
def registeredBy (r : Removal) (e : LibeventEvent) : Bool :=
  match r, e with
  | .task t, .addPeriodic task _ _ => task = t
  | .task t, .addOneShot task _ _ => task = t
  | .task t, .addReadableFd _ task _ => task = t
  | .task t, .addWritableFd _ task _ => task = t
  | .fd d t, .addReadableFd fd task _ => fd = d && task = t
  | .fd d t, .addWritableFd fd task _ => fd = d && task = t
  | _, _ => false

/-- A timer is not removed by its descriptor. -/
theorem hits_timer {r : Removal} {e : NativeEvent} {periodUs nextDueUs delayUs : UInt64}
    {periodic : Bool} (htimer : e.source = .timer periodUs nextDueUs delayUs periodic)
    (hits : r.hits e = true) :
    ∃ t, r = .task t ∧ e.task = some t := by
  cases r with
  | task t => exact ⟨t, rfl, by simpa [Removal.hits] using hits⟩
  | fd d t => simp [Removal.hits, NativeEvent.onFd, htimer] at hits

/-- The records of a step, and the one it registers. -/
theorem step_effect {s s' : LibeventState} {e : LibeventEvent} (h : Inv s)
    (hstep : step s e = some s') :
    ∃ added, Effect s.loop s'.loop added ∧ s.nextReg ≤ s'.nextReg
      ∧ ∀ item, added = some item →
        item.reg = s.nextReg ∧ ∀ r : Removal, r.hits item = true → registeredBy r e = true := by
  have hadded : ∀ {r : Bool × LibeventLoop} {item : NativeEvent}, Adds s.loop r item →
      (s.loop.compactRemovedEvents.Sorted → r.2.Sorted) → item.reg = s.nextReg →
      (∀ r : Removal, r.hits item = true → registeredBy r e = true) →
      ∃ added, Effect s.loop r.2 added ∧ s.nextReg ≤ s.nextReg + 1 ∧ ∀ item, added = some item →
        item.reg = s.nextReg ∧ ∀ r : Removal, r.hits item = true → registeredBy r e = true := by
    intro r item hadds hsorted hreg hhits
    refine ⟨_, hadds.effect hsorted, Nat.le_succ _, ?_⟩
    intro item' hitem'
    split at hitem'
    · obtain rfl := Option.some.inj hitem'
      exact ⟨hreg, hhits⟩
    · cases hitem'
  cases e with
  | addPeriodic task periodUs env =>
      obtain rfl := Option.some.inj hstep
      refine hadded (s.loop.addPeriodic_adds task periodUs s.nextReg env)
        (addPeriodic_sorted task periodUs s.nextReg env) rfl ?_
      intro r hits
      obtain ⟨t, rfl, htask⟩ := hits_timer rfl hits
      simpa [registeredBy] using htask
  | addOneShot task dueUs env =>
      obtain rfl := Option.some.inj hstep
      refine hadded (s.loop.addOneShot_adds task dueUs s.nextReg env)
        (addOneShot_sorted task dueUs s.nextReg env) rfl ?_
      intro r hits
      obtain ⟨t, rfl, htask⟩ := hits_timer rfl hits
      simpa [registeredBy] using htask
  | addReadableFd fd task env =>
      obtain rfl := Option.some.inj hstep
      refine hadded (s.loop.addFd_adds fd false task s.nextReg env)
        (addFd_sorted fd false task s.nextReg env) rfl ?_
      intro r hits
      cases r <;> simpa [Removal.hits, registeredBy, NativeEvent.onFd] using hits
  | addWritableFd fd task env =>
      obtain rfl := Option.some.inj hstep
      refine hadded (s.loop.addFd_adds fd true task s.nextReg env)
        (addFd_sorted fd true task s.nextReg env) rfl ?_
      intro r hits
      cases r <;> simpa [Removal.hits, registeredBy, NativeEvent.onFd] using hits
  | remove r =>
      obtain rfl := Option.some.inj hstep
      refine ⟨none, ?_, Nat.le_refl _, nofun⟩
      rw [perform_removal h.sorted]
      exact (s.loop.map_effect (mark_becomes r)).trans (compact_effect _)
  | endRunOnce =>
      obtain rfl := Option.some.inj hstep
      refine ⟨none, ?_, Nat.le_refl _, nofun⟩
      unfold endRunOnce
      split
      · exact compact_effect _
      · exact ⟨fun e he => Or.inl ⟨e, he, Becomes.refl e⟩, id⟩
  | dispatch reg =>
      obtain ⟨item, -, rfl⟩ := Option.map_eq_some_iff.mp hstep
      have heffect := s.loop.activate_effect reg
      refine ⟨none, ?_, ?_, nofun⟩ <;> dsimp only <;> split
      · exact heffect
      · exact ⟨heffect.old, heffect.sorted⟩
      · exact Nat.le_refl _
      · exact Nat.le_refl _
  | pollReturns env =>
      simp only [step] at hstep
      split at hstep
      · rename_i reg rest hframes
        obtain rfl := Option.some.inj hstep
        refine ⟨none, ⟨?_, s.loop.afterPoll_sorted reg env⟩, Nat.le_refl _, nofun⟩
        intro e' he'
        obtain ⟨⟨e, he, rfl⟩, -⟩ := mem_afterPoll.mp he'
        exact Or.inl ⟨e, he, modify_becomes (afterPoll_becomes env) reg e⟩
      · cases hstep

/-- A removal finds nothing more, until something is registered. -/
theorem run_clear {s s' : LibeventState} {es : List LibeventEvent} {r : Removal} (h : Inv s)
    (hclear : ∀ e ∈ s.loop.events, r.hits e = false) (hes : ∀ e ∈ es, registeredBy r e = false)
    (hrun : run step s es = some s') : ∀ e ∈ s'.loop.events, r.hits e = false := by
  induction es generalizing s with
  | nil => exact Option.some.inj hrun ▸ hclear
  | cons e es ih =>
      obtain ⟨m, hm, hrest⟩ := run_cons.mp hrun
      obtain ⟨added, heffect, -, hadded⟩ := step_effect h hm
      refine ih (step_inv h hm) ?_ (fun e' he' => hes e' (List.mem_cons_of_mem _ he'))
        hrest
      intro d' hd'
      rw [Bool.eq_false_iff]
      intro hits
      rcases heffect.old d' hd' with ⟨d, hd, hb⟩ | hnew
      · have hmiss := hclear d hd
        rw [hb.hits hits] at hmiss
        cases hmiss
      · have hreg := (hadded d' hnew).2 r hits
        rw [hes e (List.mem_cons_self ..)] at hreg
        cases hreg

/-- A record that has lost its task, if it is still there. -/
structure Gone (s : LibeventState) (reg : Nat) : Prop where
  lt : reg < s.nextReg
  task : ∀ e ∈ s.loop.events, e.reg = reg → e.task = none

theorem step_gone {s s' : LibeventState} {e : LibeventEvent} {reg : Nat} (h : Inv s)
    (hgone : Gone s reg) (hstep : step s e = some s') :
    Gone s' reg ∧ polls s'.log reg = polls s.log reg := by
  obtain ⟨added, heffect, hmono, hadded⟩ := step_effect h hstep
  refine ⟨⟨Nat.lt_of_lt_of_le hgone.lt hmono, ?_⟩, ?_⟩
  · intro d' hd' hreg
    rcases heffect.old d' hd' with ⟨d, hd, hb⟩ | hnew
    · have hnone := hgone.task d hd (hb.reg.symm.trans hreg)
      rcases hb.task with heq | hnone'
      · rw [heq, hnone]
      · exact hnone'
    · have hlt := hgone.lt
      rw [← hreg, (hadded d' hnew).1] at hlt
      exact absurd hlt (Nat.lt_irrefl _)
  · cases e with
    | addPeriodic => exact Option.some.inj hstep ▸ rfl
    | addReadableFd => exact Option.some.inj hstep ▸ rfl
    | addWritableFd => exact Option.some.inj hstep ▸ rfl
    | remove => exact Option.some.inj hstep ▸ rfl
    | endRunOnce => exact Option.some.inj hstep ▸ rfl
    | addOneShot task dueUs env =>
        obtain rfl := Option.some.inj hstep
        dsimp only
        split
        · exact List.count_cons_of_ne (by simp)
        · rfl
    | dispatch reg' =>
        obtain ⟨item, hfound, rfl⟩ := Option.map_eq_some_iff.mp hstep
        obtain ⟨hitem, rfl, -⟩ := pendingEvent_spec hfound
        dsimp only
        split
        · rfl
        · rename_i hpolled
          refine List.count_cons_of_ne fun heq => hpolled ?_
          rw [hgone.task item hitem (LibeventNote.polled.inj heq)]
          simp
    | pollReturns env =>
        simp only [step] at hstep
        split at hstep
        · exact Option.some.inj hstep ▸ rfl
        · cases hstep

theorem run_gone {s s' : LibeventState} {es : List LibeventEvent} {reg : Nat} (h : Inv s)
    (hgone : Gone s reg) (hrun : run step s es = some s') :
    polls s'.log reg = polls s.log reg := by
  induction es generalizing s with
  | nil => exact Option.some.inj hrun ▸ rfl
  | cons e es ih =>
      obtain ⟨m, hm, hrest⟩ := run_cons.mp hrun
      obtain ⟨hgone', hpolls⟩ := step_gone h hgone hm
      exact (ih (step_inv h hm) hgone' hrest).trans hpolls

/-- What a removal leaves of the records it is about. -/
theorem Inv.removed {s : LibeventState} (h : Inv s) (r : Removal) :
    (∀ e ∈ (r.perform s.loop).2.events, r.hits e = false)
      ∧ ∀ e ∈ s.loop.events, r.hits e = true →
        Gone { s with loop := (r.perform s.loop).2 } e.reg := by
  rw [perform_removal h.sorted]
  have hold : ∀ e' ∈ (s.loop.mapEvents r.mark).compactRemovedEvents.events,
      ∃ e ∈ s.loop.events, r.mark e = e' := fun e' he' => by
    have hmem := (mem_compactRemovedEvents.mp he').1
    rw [mapEvents_events] at hmem
    exact List.mem_map.mp hmem
  refine ⟨?_, fun e he hits => ⟨h.numbered.fresh e he, ?_⟩⟩
  · intro e' he'
    obtain ⟨e, -, rfl⟩ := hold e' he'
    exact mark_unhit r e
  · intro e' he' hreg
    obtain ⟨d, hd, rfl⟩ := hold e' he'
    obtain rfl := h.numbered.unique d hd e he ((mark_becomes r d).reg.symm.trans hreg)
    exact mark_hit r hits

/-! ## The property -/

/-- A step frees the record. -/
def Freed (s s' : LibeventState) (reg : Nat) : Prop :=
  (∃ e ∈ s.loop.events, e.reg = reg) ∧ ∀ e ∈ s'.loop.events, e.reg ≠ reg

/-- In every state of every run: a record is there while its `poll` is executing,
and no step frees it before that; what a removal is about is never polled
again, and the removal finds nothing more until something is registered; a
one-shot is polled once at most, and between polls its record is gone then;
and compaction keeps what is not marked, in order. -/
theorem reentrancy_safe (base : Bool) {s : LibeventState} {es : List LibeventEvent}
    (hrun : run step (fresh base) es = some s) :
    (∀ reg ∈ s.frames, ∃ e ∈ s.loop.events, e.reg = reg)
      ∧ (∀ e s', step s e = some s' → ∀ reg, Freed s s' reg → reg ∉ s'.frames)
      ∧ (∀ r removed, step s (.remove r) = some removed → ∀ es' s', run step removed es' = some s' →
        (∀ e ∈ s.loop.events, r.hits e = true → polls s'.log e.reg = polls s.log e.reg)
          ∧ ((∀ e ∈ es', registeredBy r e = false) → (r.perform s'.loop).1 = false))
      ∧ (∀ reg, .oneShot reg ∈ s.log → polls s.log reg ≤ 1
        ∧ (polls s.log reg = 1 → s.frames = [] → ∀ e ∈ s.loop.events, e.reg ≠ reg))
      ∧ s.loop.compactRemovedEvents
        = (if s.loop.callbackDepth ≠ 0 then s.loop
          else { s.loop with
            periodicEvents := eraseRemoved s.loop.periodicEvents.length 0 s.loop.periodicEvents
            oneShotEvents := eraseRemoved s.loop.oneShotEvents.length 0 s.loop.oneShotEvents
            fdEvents := eraseRemoved s.loop.fdEvents.length 0 s.loop.fdEvents })
      ∧ ∀ events ∈ [s.loop.periodicEvents, s.loop.oneShotEvents, s.loop.fdEvents],
        eraseRemoved events.length 0 events = events.filter fun e => !e.removed := by
  have hinv := run_invariant (I := Inv) (fun _ _ _ => step_inv) (inv_fresh base) hrun
  refine ⟨hinv.held, ?_, ?_,
    fun reg hreg => ⟨(hinv.once reg hreg).1, ?_⟩,
    compactRemovedEvents_eq s.loop, fun events _ => eraseRemoved_filter events⟩
  · intro e s' hstep reg hfreed hframe
    obtain ⟨d, hd, hdreg⟩ := (step_inv hinv hstep).held reg hframe
    exact hfreed.2 d hd hdreg
  · intro r removed hremove es' s' hrest
    obtain rfl := Option.some.inj hremove
    obtain ⟨hclear, hgone⟩ := hinv.removed r
    have hafter := hinv.removal r
    refine ⟨fun e he hits => ?_, fun hes => ?_⟩
    · have hpolls := run_gone hafter (hgone e he hits) hrest
      exact hpolls
    have hclear' := run_clear hafter hclear hes hrest
    have hinv' := run_invariant (I := Inv) (fun _ _ _ => step_inv) hafter hrest
    rw [perform_removal hinv'.sorted]
    exact List.any_eq_false.mpr fun e he => by simp [hclear' e he]
  · intro hone hidle e he heq
    have honce := (hinv.once reg hreg).2 e he heq
    rcases hinv.fired e he honce (by rw [heq, hone]; exact Nat.one_pos) with hremoved | hframe
    · rw [hinv.swept (by rw [hinv.depth, hidle]; rfl) e he] at hremoved
      cases hremoved
    · rw [hidle] at hframe
      cases hframe

/-- A one-shot that removes a descriptor and itself from its `poll`, and runs the
loop there. -/
theorem reentrancy_safe_run :
    ∃ s, run step (fresh true)
        ([.addOneShot 0 5 { now := 0 }, .addReadableFd 3 1 { now := 0 }, .dispatch 0]
          ++ [.remove (.fd 3 1), .remove (.task 0), .endRunOnce, .pollReturns { now := 6 }])
        = some s
      ∧ polls s.log 1 = 0 ∧ ((Removal.fd 3 1).perform s.loop).1 = false := by
  have hsome : (run step (fresh true)
      ([.addOneShot 0 5 { now := 0 }, .addReadableFd 3 1 { now := 0 }, .dispatch 0]
        ++ [.remove (.fd 3 1), .remove (.task 0), .endRunOnce,
          .pollReturns { now := 6 }])).isSome = true := rfl
  obtain ⟨s', hrun⟩ := Option.isSome_iff_exists.mp hsome
  obtain ⟨s, hs, hrest⟩ := run_append.mp hrun
  obtain ⟨removed, hremoved, hrest⟩ := run_cons.mp hrest
  obtain ⟨hpolls, hagain⟩ :=
    (reentrancy_safe true hs).2.2.1 (.fd 3 1) removed hremoved _ s' hrest
  obtain rfl := Option.some.inj hs
  exact ⟨s', hrun, hpolls ⟨1, some 1, .fd 3 false, false, true⟩ (by decide) rfl,
    hagain (by simp [registeredBy])⟩

end LibeventState

end AsyncEventLoop
