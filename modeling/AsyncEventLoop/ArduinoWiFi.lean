import Mathlib.Data.Nat.Find
import AsyncEventLoop.Micros32Extender

/-!
# Joining a wireless network

`connect_wifi_result` starts the connection and looks at its status until it is there or
the time is up. It measures the time in `millis()`, which is 32 bits wide, so it comes
around every 49 days. That does no harm: the outcome is that of the true times
(`connectWifi_outcome`), as long as no turn of the loop takes so long that a whole stretch
of time-out goes by unseen.
-/

namespace AsyncEventLoop

open Micros32Extender

/-- A null pointer is none; a text ends before its NUL. -/
structure WiFiConnectOptions where
  ssid : Option (List UInt8) := none
  password : Option (List UInt8) := none
  timeoutMs : UInt32 := 15000
  pollIntervalMs : UInt32 := 250
  stationMode : Bool := true
  rejectPlaceholderCredentials : Bool := true
  placeholderSsid : Option (List UInt8) := some ("ssid".toList.map Char.toUInt8)

inductive WiFiConnectResult where
  | connected
  | missingCredentials
  | timeout
  deriving DecidableEq

def wifiCredentialsConfigured (ssid placeholderSsid : Option (List UInt8)) : Bool :=
  match ssid with
  | none | some [] => false
  | some ssid =>
      match placeholderSsid with
      | none | some [] => true
      | some placeholder => ssid != placeholder

/-- The calls of the Arduino core, except those that only ask. -/
inductive WiFiCall where
  | mode
  | start (ssid password : List UInt8)
  | delay (ms : UInt32)
  deriving DecidableEq

/-- What the core answers: whether the status is `WL_CONNECTED` when it is asked for the
`k`-th time, and the true time in milliseconds when `millis()` is called before the loop,
and in its `k`-th turn. -/
structure WiFiStatus where
  connected : Nat → Bool
  started : Nat
  time : Nat → Nat

/-- `millis()`, as `micros()` in 32 bits. -/
def millis (time : Nat) : UInt32 := rawMicros time

/-- The loop, from its `k`-th turn on; none if it takes more than `fuel` turns. It is the
result and the number of the last turn. -/
def connectLoop (options : WiFiConnectOptions) (status : WiFiStatus) :
    (fuel k : Nat) → Option (WiFiConnectResult × Nat)
  | 0, _ => none
  | fuel + 1, k =>
      if status.connected k then some (.connected, k)
      else if options.timeoutMs ≤ millis (status.time k) - millis status.started then
        some (.timeout, k)
      else connectLoop options status fuel (k + 1)

/-- The calls in front of the loop. -/
def startCalls (options : WiFiConnectOptions) : List WiFiCall :=
  (if options.stationMode then [.mode] else []) ++
    [.start (options.ssid.getD []) (options.password.getD [])]

/-- The credentials are not used. -/
def WiFiConnectOptions.refused (options : WiFiConnectOptions) : Bool :=
  options.rejectPlaceholderCredentials
    && !wifiCredentialsConfigured options.ssid options.placeholderSsid

/-- `connect_wifi_result`, with the calls it makes, the first one in front. -/
def connectWifiResult (options : WiFiConnectOptions) (status : WiFiStatus) (fuel : Nat) :
    Option (WiFiConnectResult × List WiFiCall) :=
  if options.refused then some (.missingCredentials, [])
  else
    (connectLoop options status fuel 0).map fun ended =>
      (ended.1, startCalls options ++ List.replicate ended.2 (.delay options.pollIntervalMs))

/-! ## True times -/

namespace WiFiStatus

/-- The status is there in turn `k`, or the time is up. -/
def Ends (options : WiFiConnectOptions) (status : WiFiStatus) (k : Nat) : Prop :=
  status.connected k = true ∨ options.timeoutMs.toNat ≤ status.time k - status.started

instance (options : WiFiConnectOptions) (status : WiFiStatus) :
    DecidablePred (status.Ends options) := fun _ => inferInstanceAs (Decidable (_ ∨ _))

/-- Time does not go backwards, and a turn takes no longer than 2^32 ms less the time-out. -/
structure Clocked (options : WiFiConnectOptions) (status : WiFiStatus) : Prop where
  first : status.started ≤ status.time 0
  firstGap : status.time 0 - status.started < 2 ^ 32
  mono : ∀ k, status.time k ≤ status.time (k + 1)
  gap : ∀ k, status.time (k + 1) - status.time k ≤ 2 ^ 32 - options.timeoutMs.toNat

variable {options : WiFiConnectOptions} {status : WiFiStatus} {k : Nat}

theorem Clocked.started_le (h : status.Clocked options) (k : Nat) :
    status.started ≤ status.time k := by
  induction k with
  | zero => exact h.first
  | succ k ih => exact Nat.le_trans ih (h.mono k)

/-- The counter has not come around when the loop asks whether the time is up. -/
theorem Clocked.elapsed_lt (h : status.Clocked options)
    (hbefore : ∀ j, j < k → ¬ status.Ends options j) :
    status.time k - status.started < 2 ^ 32 := by
  cases k with
  | zero => exact h.firstGap
  | succ k =>
      have hnot := hbefore k (Nat.lt_succ_self k)
      have hshort : status.time k - status.started < options.timeoutMs.toNat :=
        Nat.lt_of_not_le fun hle => hnot (.inr hle)
      have hgap := h.gap k
      have htimeout := options.timeoutMs.toNat_lt
      have hstarted := h.started_le k
      have hmono := h.mono k
      omega

/-- The loop asks for the difference of two readings, and gets that of the times. -/
theorem Clocked.timeout_iff (h : status.Clocked options)
    (hbefore : ∀ j, j < k → ¬ status.Ends options j) :
    options.timeoutMs ≤ millis (status.time k) - millis status.started
      ↔ options.timeoutMs.toNat ≤ status.time k - status.started := by
  rw [UInt32.le_iff_toNat_le, millis, millis, rawMicros_sub (h.started_le k) (h.elapsed_lt hbefore)]

end WiFiStatus

open WiFiStatus

variable {options : WiFiConnectOptions} {status : WiFiStatus}

/-- The loop from a turn up to which it has not ended. -/
theorem connectLoop_eq (h : status.Clocked options) (hends : ∃ k, status.Ends options k)
    {fuel k : Nat} (hk : k ≤ Nat.find hends) (hfuel : Nat.find hends < k + fuel) :
    connectLoop options status fuel k
      = some (if status.connected (Nat.find hends) then .connected else .timeout,
          Nat.find hends) := by
  induction fuel generalizing k with
  | zero => omega
  | succ fuel ih =>
      have hbefore (j : Nat) (hj : j < k) : ¬ status.Ends options j :=
        Nat.find_min hends (by omega)
      rw [connectLoop]
      by_cases hlast : k = Nat.find hends
      · have hend : status.Ends options k := hlast ▸ Nat.find_spec hends
        by_cases hconnected : status.connected k = true
        · rw [if_pos hconnected, ← hlast, if_pos hconnected]
        · have htime := hend.resolve_left hconnected
          rw [if_neg hconnected, if_pos ((h.timeout_iff hbefore).mpr htime), ← hlast,
            if_neg hconnected]
      · have hnot : ¬ status.Ends options k := Nat.find_min hends (by omega)
        obtain ⟨hconnected, htime⟩ := not_or.mp hnot
        rw [if_neg hconnected, if_neg (mt (h.timeout_iff hbefore).mp htime)]
        exact ih (by omega) (by omega)

/-- **The outcome**: no call with credentials that are refused. Otherwise the loop returns
if the status is ever there or time goes on, in the first turn in which one or the other is
true: connected if the status is there, timed out if not, after one delay for each turn
before. -/
theorem connectWifi_outcome (h : status.Clocked options) (hends : ∃ k, status.Ends options k) :
    ∃ last, (∀ k, k < last → status.connected k = false
        ∧ status.time k - status.started < options.timeoutMs.toNat)
      ∧ (status.connected last = true
        ∨ options.timeoutMs.toNat ≤ status.time last - status.started)
      ∧ ∀ fuel, last < fuel → connectWifiResult options status fuel
        = some (if options.refused then (.missingCredentials, [])
          else (if status.connected last then .connected else .timeout,
            startCalls options ++ List.replicate last (.delay options.pollIntervalMs))) := by
  refine ⟨Nat.find hends, fun k hk => ?_, Nat.find_spec hends, fun fuel hfuel => ?_⟩
  · obtain ⟨hconnected, htime⟩ := not_or.mp (Nat.find_min hends hk)
    exact ⟨Bool.eq_false_iff.mpr hconnected, Nat.lt_of_not_le htime⟩
  · unfold connectWifiResult
    rw [connectLoop_eq h hends (Nat.zero_le _) (by omega)]
    split <;> rfl

/-- The counter comes around between the second and the third turn. -/
def aroundTheCounter : WiFiStatus where
  connected _ := false
  started := 2 ^ 32 - 300
  time k := 2 ^ 32 - 300 + 250 * k

theorem connectWifi_outcome_run :
    ∃ last, ∀ fuel, last < fuel →
      connectWifiResult { ssid := some [110], timeoutMs := 600 } aroundTheCounter fuel
        = some (.timeout, startCalls { ssid := some [110], timeoutMs := 600 } ++
          List.replicate last (.delay 250)) := by
  have hclocked : aroundTheCounter.Clocked { ssid := some [110], timeoutMs := 600 } := by
    have htimeout : (600 : UInt32).toNat = 600 := rfl
    refine ⟨by decide, by decide, fun k => ?_, fun k => ?_⟩ <;>
      simp only [aroundTheCounter, htimeout] <;> omega
  obtain ⟨last, -, -, houtcome⟩ := connectWifi_outcome hclocked ⟨3, .inr (by decide)⟩
  exact ⟨last, fun fuel hfuel => houtcome fuel hfuel⟩

end AsyncEventLoop
