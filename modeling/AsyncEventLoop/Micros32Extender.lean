import AsyncEventLoop.Runs
import Mathlib.Algebra.Ring.Nat
import Mathlib.Data.List.Pairwise

/-!
# The extended microsecond counter

`Micros32Extender` adds up the differences of a 32-bit counter. Sampled at
instants less than one rollover apart, each difference is the time that has
gone by, so the sum is the true time but for the whole rollovers before
the first sample (`extended`). `Tracks` says so of a state, and every
`update` keeps it.
-/

namespace AsyncEventLoop

open Runs

structure Micros32Extender where
  extendedUs : UInt64 := 0
  lastRawUs : UInt32 := 0
  initialized : Bool := false
  deriving DecidableEq

namespace Micros32Extender

def update (m : Micros32Extender) (rawUs : UInt32) : UInt64 × Micros32Extender :=
  if !m.initialized then
    (rawUs.toUInt64, { extendedUs := rawUs.toUInt64, lastRawUs := rawUs, initialized := true })
  else
    let delta := rawUs - m.lastRawUs
    let extendedUs := m.extendedUs + delta.toUInt64
    (extendedUs, { m with extendedUs := extendedUs, lastRawUs := rawUs })

def reset (_m : Micros32Extender) (rawUs : UInt32) : Micros32Extender where
  initialized := true
  lastRawUs := rawUs
  extendedUs := rawUs.toUInt64

/-- The counter at a true time. -/
def rawMicros (time : Nat) : UInt32 := UInt32.ofNat time

/-- What `update` returns at each of some true times. -/
def sample (m : Micros32Extender) : List Nat → List UInt64
  | [] => []
  | time :: times =>
      let r := m.update (rawMicros time)
      r.1 :: sample r.2 times

/-- The true time, counted from the last rollover before `first`. -/
def extended (first time : Nat) : Nat := first % 2 ^ 32 + (time - first)

/-- Sampled often enough: less than one rollover apart. -/
def Sampled (times : List Nat) : Prop :=
  times.IsChain fun last time => last ≤ time ∧ time - last < 2 ^ 32

/-- The results are the true times, as long as 64 bits hold them. -/
structure Recovers (first : Nat) (times : List Nat) (results : List UInt64) : Prop where
  length : results.length = times.length
  exact : ∀ (i : Nat) (time : Nat) (v : UInt64), times[i]? = some time → results[i]? = some v →
    extended first time < 2 ^ 64 → v.toNat = extended first time
  sorted : ∀ (i j : Nat) (time : Nat) (v w : UInt64), i ≤ j → times[j]? = some time →
    results[i]? = some v → results[j]? = some w → extended first time < 2 ^ 64 → v ≤ w
  congruent : ∀ (i : Nat) (time : Nat) (v : UInt64), times[i]? = some time →
    results[i]? = some v → v.toNat % 2 ^ 32 = (rawMicros time).toNat

/-- The extender behind a sample at `last`. -/
structure Tracks (first last : Nat) (m : Micros32Extender) : Prop where
  initialized : m.initialized = true
  lastRawUs : m.lastRawUs = rawMicros last
  extendedUs : m.extendedUs = UInt64.ofNat (extended first last)

theorem toNat_rawMicros (time : Nat) : (rawMicros time).toNat = time % 2 ^ 32 := by
  rw [rawMicros, UInt32.toNat_ofNat']

/-- The 32-bit difference of two samples is the gap between them. -/
theorem rawMicros_sub {last time : Nat} (hle : last ≤ time) (hgap : time - last < 2 ^ 32) :
    (rawMicros time - rawMicros last).toNat = time - last := by
  rw [UInt32.toNat_sub, toNat_rawMicros, toNat_rawMicros]
  omega

section

variable {first last time : Nat} {m : Micros32Extender}

theorem tracks_first (first : Nat) :
    Tracks first first
      { extendedUs := (rawMicros first).toUInt64, lastRawUs := rawMicros first,
        initialized := true } where
  initialized := rfl
  lastRawUs := rfl
  extendedUs := by
    rw [extended, Nat.sub_self, Nat.add_zero, ← toNat_rawMicros, UInt64.ofNat_uInt32ToNat]

/-- **The step.** -/
theorem Tracks.update (h : Tracks first last m) (hfirst : first ≤ last) (hle : last ≤ time)
    (hgap : time - last < 2 ^ 32) :
    (m.update (rawMicros time)).1 = UInt64.ofNat (extended first time)
      ∧ Tracks first time (m.update (rawMicros time)).2 := by
  have hsum : m.extendedUs + (rawMicros time - m.lastRawUs).toUInt64
      = UInt64.ofNat (extended first time) := by
    have hdelta : (rawMicros time - rawMicros last).toUInt64 = UInt64.ofNat (time - last) := by
      rw [← UInt64.ofNat_uInt32ToNat, rawMicros_sub hle hgap]
    rw [h.extendedUs, h.lastRawUs, hdelta, ← UInt64.ofNat_add, extended, extended, Nat.add_assoc]
    congr 2
    omega
  rw [Micros32Extender.update, h.initialized]
  exact ⟨hsum, rfl, rfl, hsum⟩

theorem Tracks.sample_eq {times : List Nat} (h : Tracks first last m) (hfirst : first ≤ last)
    (hsampled : Sampled (last :: times)) :
    m.sample times = times.map fun time => UInt64.ofNat (extended first time) := by
  induction times generalizing m last with
  | nil => rfl
  | cons time times ih =>
      obtain ⟨⟨hle, hgap⟩, hrest⟩ := List.isChain_cons_cons.mp hsampled
      obtain ⟨hresult, hkept⟩ := h.update hfirst hle hgap
      rw [sample, List.map_cons, ← ih hkept (Nat.le_trans hfirst hle) hrest, hresult]

theorem extended_mono {time' : Nat} (h : time ≤ time') :
    extended first time ≤ extended first time' :=
  Nat.add_le_add_left (Nat.sub_le_sub_right h first) _

theorem extended_mod (h : first ≤ time) : extended first time % 2 ^ 32 = time % 2 ^ 32 := by
  rw [extended, Nat.mod_add_mod, Nat.add_sub_cancel' h]

theorem Sampled.sorted {times : List Nat} (h : Sampled times) : times.Pairwise (· ≤ ·) :=
  List.isChain_iff_pairwise.mp (h.imp fun _ _ hgap => hgap.1)

theorem recovers_map {times : List Nat} (hsorted : times.Pairwise (· ≤ ·))
    (hfirst : ∀ time ∈ times, first ≤ time) :
    Recovers first times (times.map fun time => UInt64.ofNat (extended first time)) where
  length := List.length_map ..
  exact i time v htime hv hfits := by
    rw [List.getElem?_map, htime] at hv
    obtain rfl := Option.some.inj hv
    exact UInt64.toNat_ofNat_of_lt' hfits
  sorted i j time v w hij htime hv hw hfits := by
    rw [List.getElem?_map] at hv hw
    rw [htime] at hw
    obtain ⟨before, hbefore, rfl⟩ := Option.map_eq_some_iff.mp hv
    obtain rfl := Option.some.inj hw
    obtain ⟨hi, hgeti⟩ := List.getElem?_eq_some_iff.mp hbefore
    obtain ⟨hj, hgetj⟩ := List.getElem?_eq_some_iff.mp htime
    have hle : before ≤ time := by
      rcases Nat.lt_or_eq_of_le hij with hlt | rfl
      · exact hgeti ▸ hgetj ▸ List.pairwise_iff_getElem.mp hsorted i j hi hj hlt
      · exact Nat.le_of_eq (hgeti.symm.trans hgetj)
    have hmono : extended first before ≤ extended first time := extended_mono hle
    rw [UInt64.le_iff_toNat_le, UInt64.toNat_ofNat_of_lt' hfits,
      UInt64.toNat_ofNat_of_lt' (Nat.lt_of_le_of_lt hmono hfits)]
    exact hmono
  congruent i time v htime hv := by
    rw [List.getElem?_map, htime] at hv
    obtain rfl := Option.some.inj hv
    rw [UInt64.toNat_ofNat', Nat.mod_mod_of_dvd _ (Nat.pow_dvd_pow 2 (by decide)),
      extended_mod (hfirst time (List.mem_of_getElem? htime)), toNat_rawMicros]

end

/-- Sampled often enough at true times from `first` on, the extender returns the
true time counted from the last rollover before `first`, across any number
of rollovers: from its first sample on, and likewise after a reset to the
counter at `first`. -/
theorem recovers_time {first : Nat} {times : List Nat} (hsampled : Sampled (first :: times)) :
    Recovers first (first :: times) (sample {} (first :: times))
      ∧ ∀ m : Micros32Extender,
          (m.reset (rawMicros first)).extendedUs.toNat = extended first first
            ∧ Recovers first times ((m.reset (rawMicros first)).sample times) := by
  obtain ⟨hfirst, hsorted⟩ := List.pairwise_cons.mp hsampled.sorted
  have htail := (tracks_first first).sample_eq (Nat.le_refl first) hsampled
  have hvalue : (rawMicros first).toUInt64 = UInt64.ofNat (extended first first) :=
    (tracks_first first).extendedUs
  constructor
  · have hall : sample {} (first :: times)
        = (first :: times).map fun time => UInt64.ofNat (extended first time) := by
      rw [List.map_cons, ← htail, ← hvalue]
      rfl
    rw [hall]
    exact recovers_map hsampled.sorted (List.forall_mem_cons.mpr ⟨Nat.le_refl first, hfirst⟩)
  · intro m
    refine ⟨?_, ?_⟩
    · show (rawMicros first).toUInt64.toNat = _
      rw [UInt32.toNat_toUInt64, toNat_rawMicros, extended, Nat.sub_self, Nat.add_zero]
    · have hreset : (m.reset (rawMicros first)).sample times
          = times.map fun time => UInt64.ofNat (extended first time) := htail
      rw [hreset]
      exact recovers_map hsorted hfirst

/-- Two rollovers, a gap of zero and one of `2 ^ 32 - 1`. -/
theorem recovers_time_run :
    Recovers 0xfffffff0 [0xfffffff0, 0x100000005, 0x100000005, 0x200000004]
      (sample {} [0xfffffff0, 0x100000005, 0x100000005, 0x200000004]) :=
  (recovers_time (by simp [Sampled])).1

end Micros32Extender

end AsyncEventLoop
