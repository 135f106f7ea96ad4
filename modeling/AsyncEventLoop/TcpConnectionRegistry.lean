import AsyncEventLoop.Runs
import AsyncEventLoop.SlotArray
import Mathlib.Algebra.Ring.Nat

/-!
# The registry of connections

`TcpConnectionRegistry` keeps the addresses of connections in an array with
holes, and counts them. A run interleaves its calls with the loops of
`for_each`, one frame each, whose callbacks make calls of their own; whether
a connection is valid is up to the connection every time it is asked.

The array refines a finite set (`Refined`, `SetStep`). What stands between
them is the type of `index_of`: an `int` names the cells below 2^31 only, so
the refinement holds exactly for the registries that have no others.
-/

namespace AsyncEventLoop

open Runs SlotArray

structure TcpConnectionRegistry (MaxConnections : Nat) where
  connections : Fin MaxConnections → Option Nat := fun _ => none
  count : Nat := 0

namespace TcpConnectionRegistry

variable {n : Nat}

/-- The cell of a connection, as the loop of `index_of` finds it. -/
def find (r : TcpConnectionRegistry n) (connection : Nat) : Option (Fin n) :=
  (List.finRange n).find? fun i => r.connections i = some connection

/-- `index_of`: the cell as an `int`, or -1. -/
def indexOf (r : TcpConnectionRegistry n) (connection : Nat) : Int32 :=
  match r.find connection with
  | some i => Int32.ofNat i
  | none => -1

def contains (r : TcpConnectionRegistry n) (connection : Nat) : Bool :=
  decide (r.indexOf connection ≥ 0)

def size (r : TcpConnectionRegistry n) : Nat := r.count

def empty (r : TcpConnectionRegistry n) : Bool := decide (r.count = 0)

def full (r : TcpConnectionRegistry n) : Bool := decide (r.count ≥ n)

/-- The first hole. -/
def free (r : TcpConnectionRegistry n) : Option (Fin n) :=
  (List.finRange n).find? fun i => (r.connections i).isNone

def add (r : TcpConnectionRegistry n) (connection : Nat) : Bool × TcpConnectionRegistry n :=
  if r.indexOf connection ≥ 0 then (true, r)
  else
    match r.free with
    | some i =>
        (true, { connections := Function.update r.connections i (some connection),
                 count := r.count + 1 })
    | none => (false, r)

def remove (r : TcpConnectionRegistry n) (connection : Nat) : Bool × TcpConnectionRegistry n :=
  let index := r.indexOf connection
  if index < 0 then (false, r)
  else
    (true, { connections := fun i => if i.val = index.toInt.toNat then none else r.connections i,
             count := r.count - 1 })

def clear (_r : TcpConnectionRegistry n) : TcpConnectionRegistry n := {}

/-- One turn of `prune_invalid`; `valid` is what the connection in each cell
answers when it is asked. -/
def pruneTurn (valid : Fin n → Bool) (r : TcpConnectionRegistry n) (i : Fin n) :
    TcpConnectionRegistry n :=
  if (r.connections i).isSome && !valid i then
    { connections := Function.update r.connections i none, count := r.count - 1 }
  else r

def pruneInvalid (r : TcpConnectionRegistry n) (valid : Fin n → Bool) : TcpConnectionRegistry n :=
  (List.finRange n).foldl (pruneTurn valid) r

end TcpConnectionRegistry

/-! ## Runs -/

/-- A `for_each` under way: the cell its loop is at, and whether the callback is
executing on the connection that was there. `visited` is a ghost, the cells
it was called for. -/
structure ForEachLoop where
  index : Nat := 0
  calling : Bool := false
  visited : List Nat := []

inductive RegistryEvent (n : Nat) where
  | add (connection : Nat)
  | remove (connection : Nat)
  | clear
  | pruneInvalid (valid : Fin n → Bool)
  | forEach
  /-- The innermost loop comes to its next cell; `valid` is what the connection
  in it, if any, answers. -/
  | turn (valid : Bool)
  | callbackReturns

inductive RegistryAnswer where
  | done
  | returned (ok : Bool)
  | called (index connection : Nat)

/-- The registry, the loops under way, innermost first, and the cells that the
loops that are over visited. -/
structure RegistryRun (n : Nat) where
  registry : TcpConnectionRegistry n := {}
  loops : List ForEachLoop := []
  ended : List (List Nat) := []

namespace RegistryRun

variable {n : Nat}

/-- Calls are made outside all loops or from the innermost callback. -/
def atCall (s : RegistryRun n) : Bool := s.loops.head?.all (·.calling)

/-- One turn of the loop of `for_each`. -/
def turn (s : RegistryRun n) (valid : Bool) : Option (RegistryRun n × RegistryAnswer) :=
  match s.loops with
  | [] => none
  | loop :: loops =>
      if loop.calling then none
      else if h : loop.index < n then
        match s.registry.connections ⟨loop.index, h⟩ with
        | some connection =>
            if valid then
              some ({ s with
                loops := { loop with calling := true, visited := loop.index :: loop.visited }
                  :: loops }, .called loop.index connection)
            else some ({ s with loops := { loop with index := loop.index + 1 } :: loops }, .done)
        | none => some ({ s with loops := { loop with index := loop.index + 1 } :: loops }, .done)
      else some ({ s with loops := loops, ended := loop.visited :: s.ended }, .done)

def step (s : RegistryRun n) (e : RegistryEvent n) : Option (RegistryRun n × RegistryAnswer) :=
  match e with
  | .turn valid => s.turn valid
  | .callbackReturns =>
      match s.loops with
      | [] => none
      | loop :: loops =>
          if loop.calling then
            some ({ s with
              loops := { loop with index := loop.index + 1, calling := false } :: loops }, .done)
          else none
  | .add connection =>
      if s.atCall then
        let r := s.registry.add connection
        some ({ s with registry := r.2 }, .returned r.1)
      else none
  | .remove connection =>
      if s.atCall then
        let r := s.registry.remove connection
        some ({ s with registry := r.2 }, .returned r.1)
      else none
  | .clear => if s.atCall then some ({ s with registry := s.registry.clear }, .done) else none
  | .pruneInvalid valid =>
      if s.atCall then some ({ s with registry := s.registry.pruneInvalid valid }, .done) else none
  | .forEach => if s.atCall then some ({ s with loops := {} :: s.loops }, .done) else none

end RegistryRun

/-! ## The set it refines -/

/-- The registry of a state holds the set. -/
structure Refined {n : Nat} (s : RegistryRun n) (S : Finset Nat) : Prop where
  card_le : S.card ≤ n
  contains : ∀ c, s.registry.contains c = true ↔ c ∈ S
  size : s.registry.size = S.card
  occupied : (occupied s.registry.connections).card = S.card
  empty : s.registry.empty = true ↔ S.card = 0
  full : s.registry.full = true ↔ S.card = n
  distinct : Distinct s.registry.connections
  /-- No call of `for_each` comes to a cell twice. -/
  visited : ∀ cells ∈ s.loops.map ForEachLoop.visited ++ s.ended, cells.Nodup

/-- What an event does to the set, and what its answer has to do with it. -/
def SetStep {n : Nat} (s : RegistryRun n) (S : Finset Nat) (e : RegistryEvent n)
    (answer : RegistryAnswer) (S' : Finset Nat) : Prop :=
  match e with
  | .add c =>
      answer = .returned (decide (c ∈ S ∨ S.card < n))
        ∧ S' = if c ∈ S ∨ S.card < n then insert c S else S
  | .remove c => answer = .returned (decide (c ∈ S)) ∧ S' = S.erase c
  | .clear => S' = ∅
  | .pruneInvalid valid =>
      ∀ c, c ∈ S' ↔ c ∈ S ∧ ∀ i, s.registry.connections i = some c → valid i = true
  | .turn valid => S' = S ∧ ∀ i c, answer = .called i c → c ∈ S ∧ valid = true
  | .forEach => S' = S
  | .callbackReturns => S' = S

/-- In every run, and across every step from a state of one. -/
def RefinesSet (n : Nat) : Prop :=
  ∀ (es : List (RegistryEvent n)) (s : RegistryRun n),
    run (fun s e => (s.step e).map Prod.fst) {} es = some s →
    ∃ S, Refined s S ∧ ∀ e s' answer, s.step e = some (s', answer) →
      ∃ S', Refined s' S' ∧ SetStep s S e answer S'

namespace TcpConnectionRegistry

variable {n : Nat} {r : TcpConnectionRegistry n} {c : Nat}

structure Sound (r : TcpConnectionRegistry n) : Prop where
  distinct : Distinct r.connections
  count : r.count = (occupied r.connections).card

theorem sound_init : Sound ({} : TcpConnectionRegistry n) where
  distinct := fun _ _ _ h => nomatch h
  count := by simp [occupied]

theorem find_some {i : Fin n} (h : r.find c = some i) : r.connections i = some c := by
  unfold find at h
  have hcell := List.find?_some h
  exact of_decide_eq_true hcell

theorem find_eq_none_iff : r.find c = none ↔ c ∉ members r.connections := by
  simp [find, mem_members, List.find?_eq_none]

theorem free_some {i : Fin n} (h : r.free = some i) : r.connections i = none := by
  unfold free at h
  have hhole := List.find?_some h
  exact Option.isNone_iff_eq_none.mp hhole

theorem free_eq_none_iff (h : Sound r) : r.free = none ↔ ¬(members r.connections).card < n := by
  rw [← exists_free_iff h.distinct]
  simp [free, List.find?_eq_none]

theorem Sound.count_eq (h : Sound r) : r.count = (members r.connections).card := by
  rw [h.count, card_members h.distinct]

theorem indexOf_none (h : c ∉ members r.connections) : r.indexOf c = -1 := by
  rw [indexOf, find_eq_none_iff.mpr h]

/-- Below 2^31 the cell is the `int` itself. -/
theorem indexOf_some (hn : n ≤ 2 ^ 31) (h : c ∈ members r.connections) :
    ∃ i, r.connections i = some c ∧ (r.indexOf c).toInt = i.val := by
  cases hfind : r.find c with
  | none => exact absurd h (find_eq_none_iff.mp hfind)
  | some i =>
      refine ⟨i, find_some hfind, ?_⟩
      rw [indexOf, hfind]
      exact Int32.toInt_ofNat_of_lt (Nat.lt_of_lt_of_le i.isLt hn)

theorem indexOf_nonneg_iff (hn : n ≤ 2 ^ 31) :
    r.indexOf c ≥ 0 ↔ c ∈ members r.connections := by
  rw [ge_iff_le, Int32.le_iff_toInt_le]
  constructor
  · intro h
    by_contra hnot
    rw [indexOf_none hnot] at h
    exact absurd h (by decide)
  · intro h
    obtain ⟨i, -, hi⟩ := indexOf_some hn h
    rw [hi]
    exact Int.natCast_nonneg i.val

theorem contains_iff (hn : n ≤ 2 ^ 31) : r.contains c = true ↔ c ∈ members r.connections := by
  rw [contains, decide_eq_true_eq, indexOf_nonneg_iff hn]

/-! ### One lemma for each operation -/

theorem Sound.add (h : Sound r) (hn : n ≤ 2 ^ 31) (c : Nat) :
    Sound (r.add c).2
      ∧ (r.add c).1 = decide (c ∈ members r.connections ∨ (members r.connections).card < n)
      ∧ members (r.add c).2.connections
          = if c ∈ members r.connections ∨ (members r.connections).card < n then
              insert c (members r.connections)
            else members r.connections := by
  unfold TcpConnectionRegistry.add
  by_cases hc : c ∈ members r.connections
  · rw [if_pos ((indexOf_nonneg_iff hn).mpr hc), if_pos (Or.inl hc), Finset.insert_eq_of_mem hc]
    exact ⟨h, by simp [hc], rfl⟩
  · rw [if_neg fun hge => hc ((indexOf_nonneg_iff hn).mp hge)]
    cases hfree : r.free with
    | none =>
        have hfull := (free_eq_none_iff h).mp hfree
        rw [if_neg (not_or.mpr ⟨hc, hfull⟩)]
        exact ⟨h, by simp [hc, hfull], rfl⟩
    | some i =>
        have hhole := free_some hfree
        have hroom := (exists_free_iff h.distinct).mp ⟨i, hhole⟩
        rw [if_pos (Or.inr hroom)]
        refine ⟨⟨h.distinct.fill hc, ?_⟩, by simp [hroom], members_fill hhole⟩
        rw [card_occupied_fill hhole, ← h.count]

theorem Sound.remove (h : Sound r) (hn : n ≤ 2 ^ 31) (c : Nat) :
    Sound (r.remove c).2 ∧ (r.remove c).1 = decide (c ∈ members r.connections)
      ∧ members (r.remove c).2.connections = (members r.connections).erase c := by
  unfold TcpConnectionRegistry.remove
  dsimp only
  by_cases hc : c ∈ members r.connections
  · obtain ⟨i, hcell, hindex⟩ := indexOf_some hn hc
    have hge : ¬r.indexOf c < 0 := Int32.not_lt.mpr ((indexOf_nonneg_iff hn).mpr hc)
    have hemptied : (fun j : Fin n =>
        if j.val = (r.indexOf c).toInt.toNat then none else r.connections j)
          = Function.update r.connections i none := by
      funext j
      rw [hindex, Int.toNat_natCast, Function.update_apply]
      exact if_congr Fin.ext_iff.symm rfl rfl
    rw [if_neg hge, hemptied]
    refine ⟨⟨h.distinct.empty i, ?_⟩, by simp [hc], members_erase h.distinct hcell⟩
    rw [card_occupied_empty hcell, ← h.count]
  · have hlt : r.indexOf c < 0 := by
      rw [indexOf_none hc]
      decide
    rw [if_pos hlt, Finset.erase_eq_of_notMem hc]
    exact ⟨h, by simp [hc], rfl⟩

theorem Sound.pruneTurn (h : Sound r) (valid : Fin n → Bool) (i : Fin n) :
    Sound (r.pruneTurn valid i) ∧ (r.pruneTurn valid i).connections
      = fun j => if j = i ∧ valid j = false then none else r.connections j := by
  unfold TcpConnectionRegistry.pruneTurn
  split
  · rename_i hgo
    obtain ⟨hsome, hinvalid⟩ := Bool.and_eq_true_iff.mp hgo
    obtain ⟨c, hc⟩ := Option.isSome_iff_exists.mp hsome
    rw [Bool.not_eq_true'] at hinvalid
    refine ⟨⟨h.distinct.empty i, ?_⟩, ?_⟩
    · rw [card_occupied_empty hc, ← h.count]
    · show Function.update r.connections i none = _
      funext j
      by_cases hji : j = i
      · rw [hji, Function.update_self, if_pos ⟨rfl, hinvalid⟩]
      · rw [Function.update_of_ne hji, if_neg fun hand => hji hand.1]
  · rename_i hstay
    refine ⟨h, ?_⟩
    funext j
    split
    · rename_i hand
      obtain ⟨rfl, hinvalid⟩ := hand
      rw [hinvalid, Bool.not_false, Bool.and_true, Option.not_isSome_iff_eq_none] at hstay
      exact hstay
    · rfl

/-- What the loop over some cells leaves: the induction is on the cells. -/
theorem Sound.pruneLoop (valid : Fin n → Bool) (cells : List (Fin n))
    {r : TcpConnectionRegistry n} (h : Sound r) :
    Sound (cells.foldl (TcpConnectionRegistry.pruneTurn valid) r)
      ∧ (cells.foldl (TcpConnectionRegistry.pruneTurn valid) r).connections
        = fun j => if j ∈ cells ∧ valid j = false then none else r.connections j := by
  induction cells generalizing r with
  | nil => exact ⟨h, by simp⟩
  | cons i cells ih =>
      obtain ⟨hkept, hturn⟩ := h.pruneTurn valid i
      obtain ⟨hsound, hcells⟩ := ih hkept
      refine ⟨hsound, ?_⟩
      rw [List.foldl_cons, hcells, hturn]
      funext j
      by_cases hinvalid : valid j = false
      · by_cases hmem : j ∈ cells <;> simp [hinvalid, hmem]
      · simp [hinvalid]

theorem Sound.pruneInvalid (h : Sound r) (valid : Fin n → Bool) :
    Sound (r.pruneInvalid valid)
      ∧ ∀ c, c ∈ members (r.pruneInvalid valid).connections
        ↔ c ∈ members r.connections ∧ ∀ i, r.connections i = some c → valid i = true := by
  obtain ⟨hsound, hcells⟩ := h.pruneLoop valid (List.finRange n)
  refine ⟨hsound, ?_⟩
  intro c
  unfold TcpConnectionRegistry.pruneInvalid
  rw [mem_members, mem_members, hcells]
  simp only [List.mem_finRange, true_and]
  constructor
  · rintro ⟨i, hi⟩
    split at hi
    · cases hi
    · rename_i hvalid
      refine ⟨⟨i, hi⟩, ?_⟩
      intro j hj
      rw [h.distinct j i c hj hi]
      exact Bool.eq_true_of_not_eq_false hvalid
  · rintro ⟨⟨i, hi⟩, hvalid⟩
    exact ⟨i, by rw [if_neg (by simp [hvalid i hi]), hi]⟩

end TcpConnectionRegistry

namespace RegistryRun

variable {n : Nat} {s s' : RegistryRun n} {answer : RegistryAnswer}

/-- Every cell a loop has called its callback for lies behind it. -/
structure LoopSound (loop : ForEachLoop) : Prop where
  nodup : loop.visited.Nodup
  behind : ∀ i ∈ loop.visited, i < if loop.calling then loop.index + 1 else loop.index

structure Sound (s : RegistryRun n) : Prop where
  registry : s.registry.Sound
  loops : ∀ loop ∈ s.loops, LoopSound loop
  ended : ∀ cells ∈ s.ended, cells.Nodup

def members (s : RegistryRun n) : Finset Nat := SlotArray.members s.registry.connections

theorem Sound.refined (h : Sound s) (hn : n ≤ 2 ^ 31) : Refined s s.members where
  card_le := card_members_le h.registry.distinct
  contains _ := TcpConnectionRegistry.contains_iff hn
  size := h.registry.count_eq
  occupied := (card_members h.registry.distinct).symm
  empty := by
    rw [TcpConnectionRegistry.empty, decide_eq_true_eq, h.registry.count_eq]
    rfl
  full := by
    have hle : s.members.card ≤ n := card_members_le h.registry.distinct
    rw [TcpConnectionRegistry.full, decide_eq_true_eq, h.registry.count_eq]
    exact ⟨fun hge => Nat.le_antisymm hle hge, fun heq => Nat.le_of_eq heq.symm⟩
  distinct := h.registry.distinct
  visited cells hcells := by
    rcases List.mem_append.mp hcells with hmem | hmem
    · obtain ⟨loop, hloop, rfl⟩ := List.mem_map.mp hmem
      exact (h.loops loop hloop).nodup
    · exact h.ended cells hmem

/-- A call of the registry leaves the loops where they are. -/
theorem Sound.call (h : Sound s) {r : TcpConnectionRegistry n} (hr : r.Sound) :
    Sound { s with registry := r } :=
  ⟨hr, h.loops, h.ended⟩

theorem Sound.head {loop loop' : ForEachLoop} {loops : List ForEachLoop} (h : Sound s)
    (hloops : s.loops = loop :: loops) (hloop : LoopSound loop') :
    Sound { s with loops := loop' :: loops } where
  registry := h.registry
  loops := List.forall_mem_cons.mpr
    ⟨hloop, (List.forall_mem_cons.mp (hloops ▸ h.loops)).2⟩
  ended := h.ended

theorem Sound.turn (h : Sound s) {valid : Bool} (hturn : s.turn valid = some (s', answer)) :
    Sound s' ∧ s'.members = s.members
      ∧ ∀ i c, answer = .called i c → c ∈ s.members ∧ valid = true := by
  unfold RegistryRun.turn at hturn
  split at hturn
  · cases hturn
  · rename_i loop loops hloops
    have hloop : LoopSound loop := h.loops loop (hloops ▸ List.mem_cons_self ..)
    split at hturn
    · cases hturn
    · rename_i hidle
      have hbehind : ∀ i ∈ loop.visited, i < loop.index := by
        intro i hi
        have := hloop.behind i hi
        rwa [if_neg hidle] at this
      -- a cell that is passed over
      have hpassed : LoopSound { loop with index := loop.index + 1 } := by
        refine ⟨hloop.nodup, ?_⟩
        intro i hi
        dsimp only
        rw [if_neg hidle]
        exact Nat.lt_succ_of_lt (hbehind i hi)
      split at hturn
      · rename_i hlt
        split at hturn
        · rename_i connection hcell
          split at hturn
          · rename_i hvalid
            obtain ⟨rfl, rfl⟩ := Prod.mk.inj (Option.some.inj hturn)
            refine ⟨h.head hloops ⟨?_, ?_⟩, rfl, ?_⟩
            · exact List.nodup_cons.mpr
                ⟨fun hmem => Nat.lt_irrefl _ (hbehind _ hmem), hloop.nodup⟩
            · intro i hi
              rw [if_pos rfl]
              rcases List.mem_cons.mp hi with rfl | hi
              · exact Nat.lt_succ_self _
              · exact Nat.lt_succ_of_lt (hbehind i hi)
            · intro i c hcalled
              obtain ⟨-, rfl⟩ := RegistryAnswer.called.inj hcalled
              exact ⟨mem_members.mpr ⟨_, hcell⟩, hvalid⟩
          · obtain ⟨rfl, rfl⟩ := Prod.mk.inj (Option.some.inj hturn)
            exact ⟨h.head hloops hpassed, rfl, by simp⟩
        · obtain ⟨rfl, rfl⟩ := Prod.mk.inj (Option.some.inj hturn)
          exact ⟨h.head hloops hpassed, rfl, by simp⟩
      · obtain ⟨rfl, rfl⟩ := Prod.mk.inj (Option.some.inj hturn)
        refine ⟨⟨h.registry, ?_, ?_⟩, rfl, by simp⟩
        · exact (List.forall_mem_cons.mp (hloops ▸ h.loops)).2
        · exact List.forall_mem_cons.mpr ⟨hloop.nodup, h.ended⟩

/-- **The step.** -/
theorem Sound.step (h : Sound s) (hn : n ≤ 2 ^ 31) {e : RegistryEvent n}
    (hstep : s.step e = some (s', answer)) :
    Sound s' ∧ SetStep s s.members e answer s'.members := by
  cases e with
  | add c =>
      obtain ⟨-, heq⟩ := Option.ite_none_right_eq_some.mp hstep
      obtain ⟨rfl, rfl⟩ := Prod.mk.inj (Option.some.inj heq)
      obtain ⟨hsound, hreturned, hmembers⟩ := h.registry.add hn c
      exact ⟨h.call hsound, congrArg RegistryAnswer.returned hreturned, hmembers⟩
  | remove c =>
      obtain ⟨-, heq⟩ := Option.ite_none_right_eq_some.mp hstep
      obtain ⟨rfl, rfl⟩ := Prod.mk.inj (Option.some.inj heq)
      obtain ⟨hsound, hreturned, hmembers⟩ := h.registry.remove hn c
      exact ⟨h.call hsound, congrArg RegistryAnswer.returned hreturned, hmembers⟩
  | clear =>
      obtain ⟨-, heq⟩ := Option.ite_none_right_eq_some.mp hstep
      obtain ⟨rfl, rfl⟩ := Prod.mk.inj (Option.some.inj heq)
      refine ⟨h.call TcpConnectionRegistry.sound_init, ?_⟩
      ext c
      simp [members, TcpConnectionRegistry.clear, mem_members]
  | pruneInvalid valid =>
      obtain ⟨-, heq⟩ := Option.ite_none_right_eq_some.mp hstep
      obtain ⟨rfl, rfl⟩ := Prod.mk.inj (Option.some.inj heq)
      obtain ⟨hsound, hmembers⟩ := h.registry.pruneInvalid valid
      exact ⟨h.call hsound, hmembers⟩
  | forEach =>
      obtain ⟨-, heq⟩ := Option.ite_none_right_eq_some.mp hstep
      obtain ⟨rfl, rfl⟩ := Prod.mk.inj (Option.some.inj heq)
      refine ⟨⟨h.registry, ?_, h.ended⟩, rfl⟩
      exact List.forall_mem_cons.mpr ⟨⟨List.nodup_nil, by simp⟩, h.loops⟩
  | turn valid =>
      obtain ⟨hsound, hmembers, hcalled⟩ := h.turn hstep
      exact ⟨hsound, hmembers, hcalled⟩
  | callbackReturns =>
      unfold RegistryRun.step at hstep
      dsimp only at hstep
      split at hstep
      · cases hstep
      · rename_i loop loops hloops
        obtain ⟨hcalling, heq⟩ := Option.ite_none_right_eq_some.mp hstep
        obtain ⟨rfl, rfl⟩ := Prod.mk.inj (Option.some.inj heq)
        have hloop : LoopSound loop := h.loops loop (hloops ▸ List.mem_cons_self ..)
        refine ⟨h.head hloops ⟨hloop.nodup, ?_⟩, rfl⟩
        intro i hi
        have := hloop.behind i hi
        rwa [if_pos hcalling] at this

theorem sound_init : Sound ({} : RegistryRun n) where
  registry := TcpConnectionRegistry.sound_init
  loops := by simp
  ended := by simp

/-- **The run.** -/
theorem refinesSet_of_le (hn : n ≤ 2 ^ 31) : RefinesSet n := by
  intro es s hrun
  have hsound : Sound s := by
    refine run_invariant (I := Sound) ?_ sound_init hrun
    intro t e t' ht hstep
    obtain ⟨⟨u, answer⟩, hu, rfl⟩ := Option.map_eq_some_iff.mp hstep
    exact (ht.step hn hu).1
  refine ⟨s.members, hsound.refined hn, ?_⟩
  intro e s' answer hstep
  obtain ⟨hkept, hset⟩ := hsound.step hn hstep
  exact ⟨s'.members, hkept.refined hn, hset⟩

end RegistryRun

/-! ## Cells without a name -/

namespace TcpConnectionRegistry

variable {n : Nat}

/-- The connections `0, …, k - 1`, added in this order. -/
def filled (n k : Nat) : TcpConnectionRegistry n where
  connections i := if i.val < k then some i.val else none
  count := k

theorem filled_cell {k c : Nat} {i : Fin n} (h : (filled n k).connections i = some c) :
    i.val = c ∧ c < k := by
  obtain ⟨hlt, heq⟩ := Option.ite_none_right_eq_some.mp h
  obtain rfl := Option.some.inj heq
  exact ⟨rfl, hlt⟩

theorem filled_free {k : Nat} (hk : k < n) : (filled n k).free = some ⟨k, hk⟩ := by
  rw [free, List.find?_eq_some_iff_getElem]
  refine ⟨by simp [filled], k, by simpa using hk, by simp, ?_⟩
  intro j hj
  simp [filled, hj]

theorem filled_add {k : Nat} (hk : k < n) : (filled n k).add k = (true, filled n (k + 1)) := by
  have hnew : k ∉ members (filled n k).connections := by
    rw [mem_members]
    rintro ⟨i, hi⟩
    exact Nat.lt_irrefl k (filled_cell hi).2
  have hcells : Function.update (filled n k).connections ⟨k, hk⟩ (some k)
      = (filled n (k + 1)).connections := by
    funext i
    by_cases hik : i = ⟨k, hk⟩
    · rw [hik, Function.update_self]
      exact (if_pos (Nat.lt_succ_self k)).symm
    · have hne : i.val ≠ k := fun heq => hik (Fin.ext heq)
      rw [Function.update_of_ne hik]
      exact if_congr (by omega) rfl rfl
  rw [add, indexOf_none hnew, if_neg (by decide), filled_free hk]
  dsimp only
  rw [hcells]
  rfl

/-- From 2^31 on a cell is not a number `index_of` returns. -/
theorem filled_contains {k c : Nat} (hk : k ≤ 2 ^ 31 + 1)
    (h : (filled n k).contains c = true) : c < 2 ^ 31 := by
  rw [contains, decide_eq_true_eq, indexOf] at h
  cases hfind : (filled n k).find c with
  | none =>
      rw [hfind] at h
      dsimp only at h
      exact absurd h (by decide)
  | some i =>
      obtain ⟨hi, hc⟩ := filled_cell (find_some hfind)
      by_contra hge
      have hlast : c = 2 ^ 31 := by omega
      rw [hfind] at h
      dsimp only at h
      rw [hi, hlast] at h
      exact absurd h (by decide)

end TcpConnectionRegistry

namespace RegistryRun

variable {n : Nat}

theorem run_filled {k : Nat} (hk : k ≤ n) :
    run (fun s e => (step s e).map Prod.fst) ({} : RegistryRun n) ((List.range k).map .add)
      = some { registry := .filled n k } := by
  induction k with
  | zero => rfl
  | succ k ih =>
      rw [List.range_succ, List.map_append]
      refine run_append.mpr ⟨_, ih (by omega), ?_⟩
      refine run_cons.mpr ⟨{ registry := .filled n (k + 1) }, ?_, rfl⟩
      have hadd := TcpConnectionRegistry.filled_add (Nat.lt_of_succ_le hk)
      simp [step, atCall, hadd]

/-- One connection too many for an `int`. -/
theorem not_refinesSet_of_lt (hn : 2 ^ 31 < n) : ¬RefinesSet n := by
  intro h
  obtain ⟨S, hS, -⟩ := h _ _ (run_filled (k := 2 ^ 31 + 1) hn)
  have hsub : S ⊆ Finset.range (2 ^ 31) := by
    intro c hc
    rw [Finset.mem_range]
    exact TcpConnectionRegistry.filled_contains (Nat.le_refl _) ((hS.contains c).mpr hc)
  have hcard := Finset.card_le_card hsub
  have hsize : 2 ^ 31 + 1 = S.card := hS.size
  rw [Finset.card_range, ← hsize] at hcard
  exact absurd hcard (Nat.not_succ_le_self _)

/-- The registry refines a set of at most `n` connections exactly if its cells
are numbers that an `int` holds. -/
theorem refinesSet_iff (n : Nat) : RefinesSet n ↔ n ≤ 2 ^ 31 :=
  ⟨fun h => Nat.not_lt.mp fun hlt => not_refinesSet_of_lt hlt h, refinesSet_of_le⟩

/-- 2^31 + 1 connections: the last is registered, and not contained. -/
theorem refinesSet_fails : ¬RefinesSet (2 ^ 31 + 1) :=
  not_refinesSet_of_lt (Nat.lt_succ_self _)

end RegistryRun

end AsyncEventLoop
